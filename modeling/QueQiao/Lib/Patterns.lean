import Mathlib.Data.Char
import Mathlib.Data.List.Infix
import Mathlib.Data.List.Lex
import Mathlib.Order.Lattice

namespace QueQiao.Lib.Patterns

section Ranges

variable {α : Type*} [LinearOrder α] {top : α} {v s : List α}

theorem lt_append_left_iff (t : List α) : v ++ s < v ++ t ↔ s < t := by
  induction v with
  | nil => rfl
  | cons a v ih =>
    rw [List.cons_append, List.cons_append, List.cons_lt_cons_iff, ih]
    simp

theorem lt_singleton_iff (htop : ∀ a, a ≤ top) : s < [top] ↔ s.head? ≠ some top := by
  cases s with
  | nil => simp
  | cons a s =>
    rw [List.cons_lt_cons_iff, List.head?_cons, ne_eq, Option.some.injEq]
    constructor
    · intro h
      rcases h with h | ⟨-, h⟩
      · exact h.ne
      · exact absurd h (List.not_lt_nil s)
    · intro h
      exact Or.inl (lt_of_le_of_ne (htop a) h)

theorem prefix_of_le_of_lt {t : List α} (hle : v ≤ s) (hlt : s < v ++ t) : v <+: s := by
  induction v generalizing s with
  | nil => exact List.nil_prefix
  | cons a v ih =>
    cases s with
    | nil => exact absurd (List.nil_lt_cons a v) (not_lt.mpr hle)
    | cons b s =>
      rw [← not_lt, List.cons_lt_cons_iff, not_or, not_and] at hle
      rw [List.cons_append, List.cons_lt_cons_iff] at hlt
      rcases hlt with hlt | ⟨rfl, hlt⟩
      · exact absurd hlt hle.1
      · exact List.cons_prefix_cons.mpr ⟨rfl, ih (not_lt.mp (hle.2 rfl)) hlt⟩

theorem le_and_lt_append_iff (htop : ∀ a, a ≤ top) :
    (v ≤ s ∧ s < v ++ [top]) ↔ ∃ rest, s = v ++ rest ∧ rest.head? ≠ some top := by
  constructor
  · rintro ⟨hle, hlt⟩
    obtain ⟨rest, rfl⟩ := prefix_of_le_of_lt hle hlt
    exact ⟨rest, rfl, (lt_singleton_iff htop).mp ((lt_append_left_iff _).mp hlt)⟩
  · rintro ⟨rest, rfl, hrest⟩
    refine ⟨?_, (lt_append_left_iff _).mpr ((lt_singleton_iff htop).mpr hrest)⟩
    have hnil : v ++ [] ≤ v ++ rest :=
      not_lt.mp fun h ↦ List.not_lt_nil _ ((lt_append_left_iff _).mp h)
    rwa [List.append_nil] at hnil

end Ranges

inductive Item (α : Type*) where
  | run
  | one
  | only (a : α)

section Items

variable {α β : Type*} [DecidableEq β] (fold : α → β) {w s : List α} {p : List (Item α)}

/-- Whether the items read a whole list. Symbols are compared after `fold`. -/
def reads : List (Item α) → List α → Bool
  | [], s => s.isEmpty
  | .run :: p, s => s.tails.any (reads p)
  | .one :: _, [] | .only _ :: _, [] => false
  | .one :: p, _ :: s => reads p s
  | .only a :: p, b :: s => decide (fold a = fold b) && reads p s

theorem reads_run : reads fold (.run :: p) s = true ↔ ∃ t, t <:+ s ∧ reads fold p t = true := by
  simp only [reads, List.any_eq_true, List.mem_tails]

theorem reads_only_append :
    reads fold (w.map .only ++ p) s = true ↔
      ∃ u t, s = u ++ t ∧ u.map fold = w.map fold ∧ reads fold p t = true := by
  induction w generalizing s with
  | nil =>
    constructor
    · intro h
      exact ⟨[], s, rfl, rfl, h⟩
    · rintro ⟨u, t, rfl, hu, h⟩
      rw [List.map_nil, List.map_eq_nil_iff] at hu
      rw [hu]
      exact h
  | cons a w ih =>
    cases s with
    | nil => simp [reads]
    | cons b s =>
      simp only [List.map_cons, List.cons_append, reads, Bool.and_eq_true, decide_eq_true_eq, ih]
      constructor
      · rintro ⟨hab, u, t, rfl, hu, h⟩
        exact ⟨b :: u, t, rfl, by rw [List.map_cons, hab, hu], h⟩
      · rintro ⟨u, t, hs, hu, h⟩
        cases u with
        | nil => cases hu
        | cons c u =>
          obtain ⟨rfl, rfl⟩ := List.cons.inj hs
          rw [List.map_cons, List.cons.injEq] at hu
          exact ⟨hu.1.symm, u, t, rfl, hu.2, h⟩

theorem reads_contains :
    reads fold (.run :: (w.map .only ++ [.run])) s = true ↔ w.map fold <:+: s.map fold := by
  have hrest : ∀ t : List α, reads fold [.run] t = true := fun t ↦
    (reads_run fold).mpr ⟨[], List.nil_suffix, rfl⟩
  rw [reads_run, List.infix_map_iff]
  constructor
  · rintro ⟨_, ⟨u, rfl⟩, h⟩
    obtain ⟨v, t, rfl, hv, -⟩ := (reads_only_append fold).mp h
    exact ⟨v, ⟨u, t, by rw [List.append_assoc]⟩, hv.symm⟩
  · rintro ⟨v, ⟨u, t, rfl⟩, hv⟩
    refine ⟨v ++ t, ⟨u, by rw [List.append_assoc]⟩, ?_⟩
    exact (reads_only_append fold).mpr ⟨v, t, rfl, hv.symm, hrest t⟩

end Items

section Written

variable {α : Type*} [DecidableEq α]

/-- How patterns are written: `run` and `one` are what they stand for, and `escape` takes from
the next symbol what it stands for. -/
structure Writing (α : Type*) where
  run : α
  one : α
  escape : α
  run_ne_escape : run ≠ escape

variable (W : Writing α) {w p : List α}

/-- The items of a written pattern; the flag is that `escape` came before. -/
def Writing.parse : Bool → List α → Option (List (Item α))
  | false, [] => some []
  | true, [] => none
  | true, a :: p => (parse false p).map (.only a :: ·)
  | false, a :: p =>
    if a = W.escape then parse true p
    else (parse false p).map ((if a = W.run then .run else if a = W.one then .one else .only a) :: ·)

def Writing.quote (w : List α) : List α :=
  w.flatMap fun a ↦ if a = W.run ∨ a = W.one ∨ a = W.escape then [W.escape, a] else [a]

theorem Writing.parse_quote_append :
    W.parse false (W.quote w ++ p) = (W.parse false p).map (w.map .only ++ ·) := by
  induction w with
  | nil => simp [quote]
  | cons a w ih =>
    have hcons : W.quote (a :: w) =
        (if a = W.run ∨ a = W.one ∨ a = W.escape then [W.escape, a] else [a]) ++ W.quote w := rfl
    have hmap : (W.parse false (W.quote w ++ p)).map (.only a :: ·) =
        (W.parse false p).map ((a :: w).map .only ++ ·) := by
      rw [ih, Option.map_map]
      rfl
    rw [hcons, List.append_assoc, ← hmap]
    by_cases ha : a = W.run ∨ a = W.one ∨ a = W.escape
    · rw [if_pos ha]
      simp only [List.cons_append, List.nil_append, parse, if_true]
    · rw [if_neg ha]
      obtain ⟨hrun, hone, hescape⟩ := not_or.mp ha |>.imp_right not_or.mp
      simp only [List.cons_append, List.nil_append, parse, if_neg hrun, if_neg hone,
        if_neg hescape]

theorem Writing.parse_contains :
    W.parse false (W.run :: (W.quote w ++ [W.run])) =
      some (.run :: (w.map .only ++ [.run])) := by
  simp only [parse, if_neg W.run_ne_escape, if_true, parse_quote_append, Option.map_some]

end Written

end QueQiao.Lib.Patterns
