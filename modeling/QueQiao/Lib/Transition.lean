import Mathlib.Data.List.Basic
import Mathlib.Logic.Relation

namespace QueQiao.Lib.Transition

variable {σ ι : Type*}

/-- A path of a partial step function from `s₀`: every state it leaves, paired with the
label it leaves by, and the state it ends in. -/
inductive Path (step : σ → ι → Option σ) (s₀ : σ) : List (σ × ι) → σ → Prop
  | nil : Path step s₀ [] s₀
  | snoc {tr : List (σ × ι)} {s t : σ} {l : ι} :
      Path step s₀ tr s → step s l = some t → Path step s₀ (tr ++ [(s, l)]) t

variable {step : σ → ι → Option σ} {s₀ s t : σ} {tr : List (σ × ι)}

/-- The invariant rule: what holds at the start and is kept by every step that meets `ok`
holds at the end of a path all of whose steps meet `ok`. -/
theorem Path.invariant {P : σ → Prop} (ok : σ → ι → Prop) (h : Path step s₀ tr t)
    (hok : ∀ p ∈ tr, ok p.1 p.2) (h₀ : P s₀)
    (hstep : ∀ s l t, P s → ok s l → step s l = some t → P t) : P t := by
  induction h with
  | nil => exact h₀
  | @snoc tr s t l hp hs ih =>
    have hpre : ∀ p ∈ tr, ok p.1 p.2 := fun p hp ↦ hok p (List.mem_append_left _ hp)
    have hl : ok s l := hok (s, l) (List.mem_append_right _ (List.mem_singleton_self _))
    exact hstep s l t (ih hpre) hl hs

theorem Path.invariant_all {P : σ → Prop} (h : Path step s₀ tr t) (h₀ : P s₀)
    (hstep : ∀ s l t, P s → step s l = some t → P t) : P t :=
  h.invariant (fun _ _ ↦ True) (fun _ _ ↦ trivial) h₀ (fun s l t hs _ ↦ hstep s l t hs)

def Always (P : σ → Prop) (tr : List (σ × ι)) (t : σ) : Prop := (∀ p ∈ tr, P p.1) ∧ P t

/-- When `J` holds as long as the steps meet `ok`, gives `P`, and a step that does not meet
`ok` breaks `P`, a path has `P` throughout exactly if all of its steps meet `ok`. -/
theorem Path.always_iff_of {P : σ → Prop} (J : σ → Prop) {ok : σ → ι → Prop} (dom : ι → Prop)
    (h : Path step s₀ tr t) (hdom : ∀ p ∈ tr, dom p.2) (hJ₀ : J s₀) (hP : ∀ s, J s → P s)
    (hok : ∀ s l t, J s → dom l → step s l = some t → ok s l → J t)
    (hbad : ∀ s l t, J s → dom l → step s l = some t → ¬ok s l → ¬P t) :
    Always P tr t ↔ ∀ p ∈ tr, ok p.1 p.2 := by
  have hJ : ∀ {tr s}, Path step s₀ tr s → (∀ p ∈ tr, dom p.2) → (∀ p ∈ tr, ok p.1 p.2) → J s :=
    fun hp hd hk ↦ hp.invariant (fun s l ↦ dom l ∧ ok s l) (fun p hm ↦ ⟨hd p hm, hk p hm⟩) hJ₀
      fun s l t hs hl hst ↦ hok s l t hs hl.1 hst hl.2
  induction h with
  | nil => simpa [Always] using hP s₀ hJ₀
  | @snoc tr s t l hp hs ih =>
    have hpre : ∀ p ∈ tr, dom p.2 := fun p hm ↦ hdom p (List.mem_append_left _ hm)
    have hl : dom l := hdom (s, l) (List.mem_append_right _ (List.mem_singleton_self _))
    constructor
    · rintro ⟨htr, ht⟩
      have hPs : P s := htr (s, l) (List.mem_append_right _ (List.mem_singleton_self _))
      have hall := (ih hpre).mp ⟨fun q hq ↦ htr q (List.mem_append_left _ hq), hPs⟩
      have hlast : ok s l := by
        by_contra hnot
        exact hbad s l t (hJ hp hpre hall) hl hs hnot ht
      intro p hm
      rcases List.mem_append.mp hm with hm | hm
      · exact hall p hm
      · rw [List.mem_singleton.mp hm]
        exact hlast
    · intro hall
      have hpreok : ∀ p ∈ tr, ok p.1 p.2 := fun p hm ↦ hall p (List.mem_append_left _ hm)
      have hbefore := (ih hpre).mpr hpreok
      refine ⟨fun p hm ↦ ?_, hP t (hJ (.snoc hp hs) hdom hall)⟩
      rcases List.mem_append.mp hm with hm | hm
      · exact hbefore.1 p hm
      · rw [List.mem_singleton.mp hm]
        exact hbefore.2

theorem Path.always_iff {P : σ → Prop} {ok : σ → ι → Prop} (h : Path step s₀ tr t) (h₀ : P s₀)
    (hstep : ∀ s l t, P s → step s l = some t → (P t ↔ ok s l)) :
    Always P tr t ↔ ∀ p ∈ tr, ok p.1 p.2 :=
  h.always_iff_of P (fun _ ↦ True) (fun _ _ ↦ trivial) h₀ (fun _ ↦ id)
    (fun s l t hs _ hst ↦ (hstep s l t hs hst).mpr)
    (fun s l t hs _ hst ↦ mt (hstep s l t hs hst).mp)

theorem Path.always {P : σ → Prop} (h : Path step s₀ tr t) (h₀ : P s₀)
    (hstep : ∀ s l t, P s → step s l = some t → P t) : Always P tr t := by
  have hiff : Always P tr t ↔ ∀ p ∈ tr, (fun (_ : σ) (_ : ι) ↦ True) p.1 p.2 :=
    h.always_iff h₀ fun s l t hs hst ↦ iff_of_true (hstep s l t hs hst) trivial
  exact hiff.mpr fun _ _ ↦ trivial

def trace (step : σ → ι → Option σ) : σ → List ι → Option (List (σ × ι) × σ)
  | s, [] => some ([], s)
  | s, l :: ls =>
    match step s l with
    | none => none
    | some t => (trace step t ls).map fun r ↦ ((s, l) :: r.1, r.2)

theorem Path.append {tr' : List (σ × ι)} (h : Path step s₀ tr s) (h' : Path step s tr' t) :
    Path step s₀ (tr ++ tr') t := by
  induction h' with
  | nil => simpa only [List.append_nil] using h
  | snoc _ hs ih => simpa only [← List.append_assoc] using Path.snoc ih hs

theorem Path.before {before after : List (σ × ι)} {l : ι} (h : Path step s₀ tr t)
    (htr : tr = before ++ (s, l) :: after) : Path step s₀ before s ∧ ∃ u, step s l = some u := by
  induction h generalizing after with
  | nil => simp at htr
  | @snoc tr u v k hp hs ih =>
    rcases List.eq_nil_or_concat after with rfl | ⟨rest, p, rfl⟩
    · obtain ⟨rfl, hlast⟩ := List.append_inj' htr rfl
      cases hlast
      exact ⟨hp, v, hs⟩
    · have hsnoc : before ++ (s, l) :: rest.concat p = before ++ (s, l) :: rest ++ [p] := by simp
      rw [hsnoc] at htr
      exact ih (List.append_inj' htr rfl).1

theorem trace_cons_eq_some {l : ι} {ls : List ι} {r : List (σ × ι) × σ} :
    trace step s (l :: ls) = some r ↔
      ∃ t r', step s l = some t ∧ trace step t ls = some r' ∧ r = ((s, l) :: r'.1, r'.2) := by
  rw [trace]
  constructor
  · intro h
    split at h
    · cases h
    · rename_i t hs
      obtain ⟨r', hr', hr⟩ := Option.map_eq_some_iff.mp h
      exact ⟨t, r', hs, hr', hr.symm⟩
  · rintro ⟨t, r', hs, hr', rfl⟩
    rw [hs]
    exact Option.map_eq_some_iff.mpr ⟨r', hr', rfl⟩

theorem Path.of_trace {ls : List ι} {r : List (σ × ι) × σ} (h : trace step s₀ ls = some r) :
    Path step s₀ r.1 r.2 := by
  induction ls generalizing s₀ r with
  | nil =>
    obtain rfl := Option.some.inj h
    exact .nil
  | cons l ls ih =>
    obtain ⟨t, r', hs, hr', rfl⟩ := trace_cons_eq_some.mp h
    have hone : Path step s₀ [(s₀, l)] t := Path.snoc .nil hs
    simpa only [List.singleton_append] using hone.append (ih hr')

theorem trace_labels {ls : List ι} {r : List (σ × ι) × σ} (h : trace step s₀ ls = some r) :
    r.1.map Prod.snd = ls := by
  induction ls generalizing s₀ r with
  | nil =>
    obtain rfl := Option.some.inj h
    rfl
  | cons l ls ih =>
    obtain ⟨t, r', -, hr', rfl⟩ := trace_cons_eq_some.mp h
    rw [List.map_cons, ih hr']

section Fold

variable {α : Type*} {P : List α → σ → Prop} {seen : List α}

/-- The rule for a loop over a list that keeps in its state what it needs of the items so far. -/
theorem foldl_seen {f : σ → α → σ} (hstep : ∀ seen s x, P seen s → P (seen ++ [x]) (f s x))
    (h : P seen s) (xs : List α) : P (seen ++ xs) (xs.foldl f s) := by
  induction xs generalizing seen s with
  | nil => rwa [List.append_nil]
  | cons x xs ih =>
    have hrest := ih (hstep seen s x h)
    rwa [List.append_assoc, List.singleton_append] at hrest

theorem foldlM_seen {f : σ → α → Option σ}
    (hstep : ∀ seen s x t, P seen s → f s x = some t → P (seen ++ [x]) t) (h : P seen s)
    {xs : List α} (hrun : xs.foldlM f s = some t) : P (seen ++ xs) t := by
  induction xs generalizing seen s with
  | nil =>
    obtain rfl := Option.some.inj hrun
    rwa [List.append_nil]
  | cons x xs ih =>
    obtain ⟨next, hnext, hrest⟩ := Option.bind_eq_some_iff.mp hrun
    have hxs := ih (hstep seen s x next h hnext) hrest
    rwa [List.append_assoc, List.singleton_append] at hxs

end Fold

end QueQiao.Lib.Transition
