import QueQiao.Lib.Transition

namespace QueQiao.Lib.Transition

variable {σ ι τ κ : Type*} {step : σ → ι → Option σ} {step' : τ → κ → Option τ} {s t : σ}
  {tr : List (σ × ι)}

/-- The steps of a path that a component takes part in, with the states of the component. -/
def project (f : σ → τ) (label : σ → ι → Option κ) (tr : List (σ × ι)) : List (τ × κ) :=
  tr.filterMap fun p ↦ (label p.1 p.2).map (f p.1, ·)

theorem project_concat (f : σ → τ) (label : σ → ι → Option κ) (tr : List (σ × ι)) (s : σ) (l : ι) :
    project f label (tr ++ [(s, l)]) =
      project f label tr ++ ((label s l).map (f s, ·)).toList := by
  rw [project, List.filterMap_append]
  cases h : label s l <;> simp [h, project]

/-- A component that only changes in the steps it takes part in, and in these as its own step
function says, goes through a path of its own. -/
theorem Path.project {J : σ → Prop} (f : σ → τ) (label : σ → ι → Option κ) (h : Path step s tr t)
    (hJ : ∀ p ∈ tr, J p.1)
    (hquiet : ∀ s l t, J s → step s l = some t → label s l = none → f t = f s)
    (hstep : ∀ s l t k, J s → step s l = some t → label s l = some k →
      step' (f s) k = some (f t)) :
    Path step' (f s) (Transition.project f label tr) (f t) := by
  induction h with
  | nil => exact .nil
  | @snoc tr u v l _ hs ih =>
    have hJu : J u := hJ (u, l) (List.mem_append_right _ (List.mem_singleton_self _))
    have hpath := ih fun p hp ↦ hJ p (List.mem_append_left _ hp)
    rw [project_concat]
    cases hlabel : label u l with
    | none =>
      rw [Option.map_none, Option.toList_none, List.append_nil, hquiet u l v hJu hs hlabel]
      exact hpath
    | some k =>
      rw [Option.map_some, Option.toList_some]
      exact .snoc hpath (hstep u l v k hJu hs hlabel)

end QueQiao.Lib.Transition
