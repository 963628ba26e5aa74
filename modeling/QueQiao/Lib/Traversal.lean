import Mathlib.Data.List.Forall2

namespace QueQiao.Lib.Traversal

variable {α β γ : Type*}

theorem mapM_eq_some {α β : Type} {f : α → Option β} {as : List α} {bs : List β} :
    as.mapM f = some bs ↔ List.Forall₂ (fun a b ↦ f a = some b) as bs := by
  induction as generalizing bs with
  | nil => simp [eq_comm]
  | cons a as ih =>
    simp only [List.mapM_cons, Option.bind_eq_bind, Option.bind_eq_some_iff, Option.pure_def,
      Option.some.injEq, List.forall₂_cons_left_iff, ih]
    constructor
    · rintro ⟨b, hb, bs, hbs, rfl⟩
      exact ⟨b, bs, hb, hbs, rfl⟩
    · rintro ⟨b, bs, hb, hbs, rfl⟩
      exact ⟨b, hb, bs, hbs, rfl⟩

theorem mapM_eq_map {α β : Type} {f : α → Option β} {g : α → β} {l : List α}
    (h : ∀ x ∈ l, f x = some (g x)) : l.mapM f = some (l.map g) := by
  rw [mapM_eq_some, List.forall₂_map_right_iff, List.forall₂_same]
  exact h

theorem exists_of_mem_right {R : α → β → Prop} {as : List α} {bs : List β}
    (h : List.Forall₂ R as bs) {b : β} (hb : b ∈ bs) : ∃ a ∈ as, R a b := by
  induction h with
  | nil => cases hb
  | cons hr _ ih =>
    rcases List.mem_cons.mp hb with rfl | hb
    · exact ⟨_, List.mem_cons_self, hr⟩
    · obtain ⟨a, ha, hr⟩ := ih hb
      exact ⟨a, List.mem_cons_of_mem _ ha, hr⟩

theorem forall₂_map_right_iff_forall {R : α → β → Prop} {S : α → γ → Prop} {P : α → Prop}
    {f : β → γ} (hitem : ∀ a b, R a b → (S a (f b) ↔ P a)) {as : List α} {bs : List β}
    (h : List.Forall₂ R as bs) : List.Forall₂ S as (bs.map f) ↔ ∀ a ∈ as, P a := by
  induction h with
  | nil => simp
  | cons hr hrest ih =>
    rw [List.map_cons, List.forall₂_cons, List.forall_mem_cons, ih, hitem _ _ hr]

end QueQiao.Lib.Traversal
