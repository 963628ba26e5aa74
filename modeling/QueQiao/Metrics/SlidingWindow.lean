import Mathlib.Algebra.Order.Ring.Rat
import Mathlib.Data.List.Induction
import Mathlib.Data.List.TakeWhile
import QueQiao.Lib.Transition

namespace QueQiao.SlidingWindow

open Lib.Transition

/-- Dropping from the front drops all there is to drop where what stands before an entry to drop
is to be dropped, too. -/
theorem dropWhile_eq_filter {α : Type*} {p : α → Bool} {xs : List α}
    (h : xs.Pairwise fun x y ↦ p y = true → p x = true) :
    xs.dropWhile p = xs.filter fun x ↦ !p x := by
  induction xs with
  | nil => rfl
  | cons x xs ih =>
    rw [List.pairwise_cons] at h
    cases hx : p x with
    | true =>
      rw [List.dropWhile_cons_of_pos hx, List.filter_cons_of_neg (by simp [hx])]
      exact ih h.2
    | false =>
      rw [List.dropWhile_cons_of_neg (by simp [hx]), List.filter_cons_of_pos (by simp [hx])]
      have hrest : xs.filter (fun y ↦ !p y) = xs := by
        apply List.filter_eq_self.mpr
        intro y hy
        rw [Bool.not_eq_true', Bool.eq_false_iff]
        intro hpy
        rw [h.1 y hy hpy] at hx
        cases hx
      rw [hrest]

/-- The floating-point numbers, as far as a window uses them. `max` prefers a number to a NaN, and
`sumStart` is what a sum starts from. -/
structure Floats (F : Type) where
  nan : F
  zero : F
  sumStart : F
  isNan : F → Bool
  le : F → F → Prop
  add : F → F → F
  div : F → F → F
  max : F → F → F
  ofNat : ℕ → F
  isNan_nan : isNan nan = true
  isNan_max : ∀ a b, isNan (max a b) = true → isNan a = true ∧ isNan b = true
  max_eq : ∀ a b, max a b = a ∨ max a b = b
  le_max_left : ∀ a b, isNan a = false → le a (max a b)
  le_max_right : ∀ a b, isNan b = false → le b (max a b)
  le_trans : ∀ a b c, le a b → le b c → le a c

section Numbers

variable {F : Type} (ops : Floats F)

def Floats.sum (values : List F) : F := values.foldl ops.add ops.sumStart

def Floats.average (values : List F) : F :=
  if values.isEmpty then ops.zero else ops.div (ops.sum values) (ops.ofNat values.length)

/-- `m` is the largest of the values that are numbers, and a NaN where there is none. -/
structure Floats.IsMaximum (values : List F) (m : F) : Prop where
  nan : ops.isNan m = true → ∀ v ∈ values, ops.isNan v = true
  mem : ops.isNan m = false → m ∈ values
  le : ∀ v ∈ values, ops.isNan v = false → ops.le v m

variable {ops} {values : List F} {m : F}

theorem Floats.IsMaximum.snoc (h : ops.IsMaximum values m) (x : F) :
    ops.IsMaximum (values ++ [x]) (ops.max m x) := by
  refine ⟨?_, ?_, ?_⟩
  · intro hnan v hv
    obtain ⟨hm, hx⟩ := ops.isNan_max m x hnan
    rcases List.mem_append.mp hv with hv | hv
    · exact h.nan hm v hv
    · rw [List.mem_singleton.mp hv]
      exact hx
  · intro hnumber
    rcases ops.max_eq m x with heq | heq
    · rw [heq] at hnumber ⊢
      exact List.mem_append_left _ (h.mem hnumber)
    · rw [heq]
      exact List.mem_append_right _ (List.mem_singleton_self x)
  · intro v hv hnumber
    rcases List.mem_append.mp hv with hv | hv
    · have hm : ops.isNan m = false := by
        rw [Bool.eq_false_iff]
        intro hnan
        rw [h.nan hnan v hv] at hnumber
        cases hnumber
      exact ops.le_trans v m _ (h.le v hv hnumber) (ops.le_max_left m x hm)
    · rw [List.mem_singleton.mp hv] at hnumber ⊢
      exact ops.le_max_right m x hnumber

theorem isMaximum_foldl (values : List F) :
    ops.IsMaximum values (values.foldl ops.max ops.nan) := by
  induction values using List.reverseRecOn with
  | nil =>
    refine ⟨fun _ v hv ↦ absurd hv List.not_mem_nil, ?_, fun v hv ↦ absurd hv List.not_mem_nil⟩
    intro hnumber
    rw [List.foldl_nil, ops.isNan_nan] at hnumber
    cases hnumber
  | append_singleton values x ih =>
    rw [List.foldl_append, List.foldl_cons, List.foldl_nil]
    exact ih.snoc x

end Numbers

/-- The values, each with the time of its push, the oldest in front. -/
structure Window (F : Type) where
  windowDuration : ℕ
  data : List (F × ℕ)

inductive Call (F : Type)
  | push (value : F)
  | max
  | avg
  | count

structure Event (F : Type) where
  now : ℕ
  call : Call F

section Transitions

variable {F : Type}

def Window.new (windowDuration : ℕ) : Window F := ⟨windowDuration, []⟩

def Window.expired (w : Window F) (now : ℕ) (entry : F × ℕ) : Bool :=
  decide (w.windowDuration ≤ now - entry.2)

def Window.removeExpired (w : Window F) (now : ℕ) : Window F :=
  { w with data := w.data.dropWhile (w.expired now) }

def Window.push (w : Window F) (now : ℕ) (value : F) : Window F :=
  let kept := w.removeExpired now
  { kept with data := kept.data ++ [(value, now)] }

def Window.max (ops : Floats F) (w : Window F) (now : ℕ) : F × Window F :=
  let kept := w.removeExpired now
  ((kept.data.map Prod.fst).foldl ops.max ops.nan, kept)

def Window.avg (ops : Floats F) (w : Window F) (now : ℕ) : F × Window F :=
  let kept := w.removeExpired now
  if kept.data.isEmpty then (ops.zero, kept)
  else
    (ops.div ((kept.data.map Prod.fst).foldl ops.add ops.sumStart) (ops.ofNat kept.data.length),
      kept)

def Window.count (w : Window F) (now : ℕ) : ℕ × Window F :=
  let kept := w.removeExpired now
  (kept.data.length, kept)

def step (ops : Floats F) (w : Window F) (e : Event F) : Option (Window F) :=
  match e.call with
  | .push value => some (w.push e.now value)
  | .max => some (w.max ops e.now).2
  | .avg => some (w.avg ops e.now).2
  | .count => some (w.count e.now).2

end Transitions

section Runs

variable {F : Type} {ops : Floats F} {tr : List (Window F × Event F)} {w w' : Window F}
  {e : Event F} {duration now : ℕ}

def Event.pushed (e : Event F) : Option (F × ℕ) :=
  match e.call with
  | .push value => some (value, e.now)
  | .max | .avg | .count => none

def pushed (tr : List (Window F × Event F)) : List (F × ℕ) := tr.filterMap fun p ↦ p.2.pushed

/-- The values whose pushes lie inside the window that ends at `now`. -/
def live (duration now : ℕ) (tr : List (Window F × Event F)) : List F :=
  ((pushed tr).filter fun entry ↦ now - entry.2 < duration).map Prod.fst

/-- The clock never ran backwards, up to its reading `now`. -/
def NonDecreasing (tr : List (Window F × Event F)) (now : ℕ) : Prop :=
  (tr.map (fun p ↦ p.2.now) ++ [now]).Pairwise (· ≤ ·)

theorem avg_snd (ops : Floats F) (w : Window F) (now : ℕ) :
    (w.avg ops now).2 = w.removeExpired now := by
  rw [Window.avg]
  split
  · rfl
  · rfl

theorem step_eq_some (h : step ops w e = some w') :
    w' = { w.removeExpired e.now with
      data := (w.removeExpired e.now).data ++ e.pushed.toList } := by
  obtain ⟨now, call⟩ := e
  cases call with
  | push value => exact (Option.some.inj h).symm
  | max =>
    rw [Event.pushed, Option.toList_none, List.append_nil]
    exact (Option.some.inj h).symm
  | avg =>
    rw [Event.pushed, Option.toList_none, List.append_nil]
    exact (Option.some.inj h).symm.trans (avg_snd ops w now)
  | count =>
    rw [Event.pushed, Option.toList_none, List.append_nil]
    exact (Option.some.inj h).symm

/-- A window holds the last of the values pushed, and those before them were outside of the window
at an earlier reading of the clock. -/
structure Retains (duration : ℕ) (tr : List (Window F × Event F)) (w : Window F) : Prop where
  windowDuration : w.windowDuration = duration
  data : ∃ dead, pushed tr = dead ++ w.data ∧
    ∀ entry ∈ dead, ∃ p ∈ tr, duration ≤ p.2.now - entry.2

theorem Retains.step (hw : Retains duration tr w) (h : step ops w e = some w') :
    Retains duration (tr ++ [(w, e)]) w' := by
  obtain rfl := step_eq_some h
  refine ⟨hw.windowDuration, ?_⟩
  obtain ⟨dead, hpushed, hdead⟩ := hw.data
  have hsplit : w.data = w.data.takeWhile (w.expired e.now) ++ (w.removeExpired e.now).data :=
    List.takeWhile_append_dropWhile.symm
  refine ⟨dead ++ w.data.takeWhile (w.expired e.now), ?_, ?_⟩
  · have hlast : pushed (tr ++ [(w, e)]) = pushed tr ++ e.pushed.toList := by
      rw [pushed, List.filterMap_append, ← pushed]
      cases hentry : e.pushed <;> simp [hentry]
    rw [hlast, hpushed, List.append_assoc, List.append_assoc]
    conv_lhs => rw [hsplit]
    rw [List.append_assoc]
  · intro entry hentry
    rcases List.mem_append.mp hentry with hentry | hentry
    · obtain ⟨p, hp, hout⟩ := hdead entry hentry
      exact ⟨p, List.mem_append_left _ hp, hout⟩
    · refine ⟨(w, e), List.mem_append_right _ (List.mem_singleton_self _), ?_⟩
      have hexpired := List.mem_takeWhile_imp hentry
      rw [Window.expired, hw.windowDuration] at hexpired
      exact of_decide_eq_true hexpired

theorem retains_run (h : Path (step ops) (.new duration) tr w) : Retains duration tr w := by
  induction h with
  | nil => exact ⟨rfl, [], rfl, fun _ hentry ↦ absurd hentry List.not_mem_nil⟩
  | snoc _ hs ih => exact ih.step hs

theorem pushed_le (hclock : NonDecreasing tr now) :
    (pushed tr).Pairwise fun x y ↦ x.2 ≤ y.2 := by
  have htimes : tr.Pairwise fun p q ↦ p.2.now ≤ q.2.now :=
    List.pairwise_map.mp (List.pairwise_append.mp hclock).1
  apply List.Pairwise.filterMap _ _ htimes
  intro p q hle x hx y hy
  have hnow : ∀ {e : Event F} {entry : F × ℕ}, e.pushed = some entry → entry.2 = e.now := by
    intro e entry hentry
    obtain ⟨now, call⟩ := e
    cases call with
    | push value => exact (congrArg Prod.snd (Option.some.inj hentry)).symm
    | max | avg | count => cases hentry
  rw [hnow hx, hnow hy]
  exact hle

theorem Retains.data_removeExpired (hw : Retains duration tr w) (hclock : NonDecreasing tr now) :
    (w.removeExpired now).data = (pushed tr).filter fun entry ↦ now - entry.2 < duration := by
  obtain ⟨dead, hpushed, hdead⟩ := hw.data
  have hsorted := pushed_le hclock
  rw [hpushed] at hsorted
  have hnone : dead.filter (fun entry ↦ now - entry.2 < duration) = [] := by
    rw [List.filter_eq_nil_iff]
    intro entry hentry
    obtain ⟨p, hp, hout⟩ := hdead entry hentry
    have hle : p.2.now ≤ now :=
      (List.pairwise_append.mp hclock).2.2 _ (List.mem_map_of_mem hp) now
        (List.mem_singleton_self now)
    rw [decide_eq_true_eq]
    omega
  have hfilter : (w.removeExpired now).data = w.data.filter fun entry ↦ !w.expired now entry := by
    apply dropWhile_eq_filter
    apply (List.pairwise_append.mp hsorted).2.1.imp
    intro x y hle hy
    have hy := of_decide_eq_true hy
    exact decide_eq_true (by omega)
  rw [hpushed, List.filter_append, hnone, List.nil_append, hfilter]
  apply List.filter_congr
  intro entry _
  rw [Window.expired, hw.windowDuration, ← decide_not]
  exact decide_eq_decide.mpr Nat.not_le

/-- At any reading of the clock, a window reports the count, the average and the maximum of the
values whose pushes lie inside of it then. -/
theorem reports_live (h : Path (step ops) (.new duration) tr w) (hclock : NonDecreasing tr now) :
    (w.count now).1 = (live duration now tr).length ∧
    (w.avg ops now).1 = ops.average (live duration now tr) ∧
    ops.IsMaximum (live duration now tr) (w.max ops now).1 := by
  have hdata : (w.removeExpired now).data.map Prod.fst = live duration now tr := by
    rw [(retains_run h).data_removeExpired hclock, live]
  refine ⟨?_, ?_, ?_⟩
  · rw [← hdata, List.length_map, Window.count]
  · rw [← hdata, Window.avg, Floats.average, Floats.sum, List.isEmpty_map, List.length_map]
    split
    · rfl
    · rfl
  · rw [← hdata]
    exact isMaximum_foldl _

end Runs

def rationals : Floats (Option ℚ) where
  nan := none
  zero := some 0
  sumStart := some 0
  isNan := Option.isNone
  le a b := ∃ x ∈ a, ∃ y ∈ b, x ≤ y
  add a b := a.bind fun x ↦ b.map fun y ↦ x + y
  div a b := a.bind fun x ↦ b.map fun y ↦ x / y
  max := Option.merge Max.max
  ofNat n := some n
  isNan_nan := rfl
  isNan_max a b h := by
    cases a <;> cases b <;> simp_all
  max_eq a b := by
    cases a with
    | none => cases b <;> exact .inr rfl
    | some x =>
      cases b with
      | none => exact .inl rfl
      | some y => exact (max_choice x y).imp (congrArg some) (congrArg some)
  le_max_left a b h := by
    cases a with
    | none => cases h
    | some x =>
      cases b with
      | none => exact ⟨x, rfl, x, rfl, le_refl x⟩
      | some y => exact ⟨x, rfl, _, rfl, le_max_left x y⟩
  le_max_right a b h := by
    cases b with
    | none => cases h
    | some y =>
      cases a with
      | none => exact ⟨y, rfl, y, rfl, le_refl y⟩
      | some x => exact ⟨y, rfl, _, rfl, le_max_right x y⟩
  le_trans a b c hab hbc := by
    obtain ⟨x, hx, y, hy, hxy⟩ := hab
    obtain ⟨y', hy', z, hz, hyz⟩ := hbc
    obtain rfl := Option.mem_unique hy hy'
    exact ⟨x, hx, z, hz, hxy.trans hyz⟩

def minuteCalls : List (Event (Option ℚ)) :=
  [⟨0, .push (some 1)⟩, ⟨30, .push (some 3)⟩, ⟨59, .avg⟩, ⟨60, .push (some 5)⟩]

theorem reports_live_minute :
    ∃ tr w, Path (step rationals) (.new 60) tr w ∧ (live 60 70 tr) = [some 3, some 5] ∧
      (w.count 70).1 = (live 60 70 tr).length ∧
      (w.avg rationals 70).1 = rationals.average (live 60 70 tr) ∧
      rationals.IsMaximum (live 60 70 tr) (w.max rationals 70).1 := by
  have hrun : (trace (step rationals) (.new 60) minuteCalls).map
      (fun r ↦ live 60 70 r.1) = some [some 3, some 5] := by
    decide +kernel
  obtain ⟨⟨tr, w⟩, hr, hlive⟩ := Option.map_eq_some_iff.mp hrun
  have hclock : NonDecreasing tr 70 := by
    have htimes : tr.map (fun p ↦ p.2.now) = minuteCalls.map fun e ↦ e.now := by
      rw [← trace_labels hr, List.map_map]
      rfl
    rw [NonDecreasing, htimes]
    decide
  exact ⟨tr, w, Path.of_trace hr, hlive, reports_live (Path.of_trace hr) hclock⟩

end QueQiao.SlidingWindow
