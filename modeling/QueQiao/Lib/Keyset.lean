import Mathlib.Data.List.Sort
import Mathlib.Order.WithBot

namespace QueQiao.Lib.Keyset

variable {α β σ : Type*} [LinearOrder β] (key : α → β)

def Ascending (l : List α) : Prop := l.Pairwise fun a b ↦ key a < key b

def after (cursor : Option β) (l : List α) : List α :=
  l.filter fun a ↦ cursor.all fun c ↦ decide (c < key a)

def upTo (cursor : Option β) (l : List α) : List α :=
  l.filter fun a ↦ cursor.any fun c ↦ decide (key a ≤ c)

def batch (n : ℕ) (cursor : Option β) (l : List α) : List α := (after key cursor l).take n

variable {key} {l : List α} {cursor : Option β}

@[simp] theorem after_none : after key none l = l := List.filter_eq_self.mpr fun _ _ ↦ rfl

@[simp] theorem upTo_none : upTo key none l = [] := List.filter_eq_nil_iff.mpr fun _ _ ↦ by simp

theorem mem_after {c : β} {a : α} : a ∈ after key (some c) l ↔ a ∈ l ∧ c < key a := by
  simp [after]

theorem mem_upTo {c : β} {a : α} : a ∈ upTo key (some c) l ↔ a ∈ l ∧ key a ≤ c := by
  simp [upTo]

theorem ascending_nil : Ascending key [] := List.Pairwise.nil

theorem Ascending.nodup_keys (h : Ascending key l) : (l.map key).Nodup :=
  List.pairwise_map.mpr (h.imp ne_of_lt)

theorem ascending_filter (h : Ascending key l) (p : α → Bool) : Ascending key (l.filter p) :=
  h.filter p

theorem ascending_insertionSort (h : (l.map key).Nodup) :
    Ascending key (l.insertionSort (key · ≤ key ·)) := by
  have hle : (l.insertionSort (key · ≤ key ·)).Pairwise (key · ≤ key ·) :=
    List.pairwise_insertionSort _ l
  have hne : (l.insertionSort (key · ≤ key ·)).Pairwise (key · ≠ key ·) :=
    List.pairwise_map.mp (((List.perm_insertionSort _ l).map key).nodup_iff.mpr h)
  exact (hle.and hne).imp fun h ↦ lt_of_le_of_ne h.1 h.2

omit [LinearOrder β] in
theorem keys_zipWith {γ δ : Type*} {key' : δ → β} {f : α → γ → δ} (hf : ∀ a c, key' (f a c) = key a)
    (l : List α) (l' : List γ) :
    (List.zipWith f l l').map key' = (l.map key).take l'.length := by
  induction l generalizing l' with
  | nil => rw [List.zipWith_nil_left, List.map_nil, List.map_nil, List.take_nil]
  | cons a l ih =>
    cases l' with
    | nil => rfl
    | cons c l' =>
      rw [List.zipWith_cons_cons, List.map_cons, List.map_cons, List.length_cons,
        List.take_succ_cons, hf, ih]

theorem ascending_zipWith {γ δ : Type*} {key' : δ → β} {f : α → γ → δ} (h : Ascending key l)
    (hf : ∀ a c, key' (f a c) = key a) (l' : List γ) : Ascending key' (List.zipWith f l l') := by
  have hkeys : (l.map key).Pairwise (· < ·) := List.pairwise_map.mpr h
  refine List.pairwise_map.mp ?_
  rw [keys_zipWith hf]
  exact hkeys.sublist (List.take_sublist _ _)

theorem cut_at {before rest : List α} {x : α} (h : Ascending key (before ++ x :: rest)) :
    upTo key (some (key x)) (before ++ x :: rest) = before ++ [x] ∧
      after key (some (key x)) (before ++ x :: rest) = rest := by
  obtain ⟨-, hrest, hbefore⟩ := List.pairwise_append.mp h
  have hlow : ∀ a ∈ before, key a < key x := fun a ha ↦ hbefore a ha x List.mem_cons_self
  have hhigh : ∀ a ∈ rest, key x < key a := fun a ha ↦ List.rel_of_pairwise_cons hrest ha
  constructor
  · rw [upTo, List.filter_append, List.filter_cons_of_pos (by simp)]
    have h₁ : before.filter (fun a ↦ (some (key x)).any fun c ↦ decide (key a ≤ c)) = before :=
      List.filter_eq_self.mpr fun a ha ↦ by simp [(hlow a ha).le]
    have h₂ : rest.filter (fun a ↦ (some (key x)).any fun c ↦ decide (key a ≤ c)) = [] :=
      List.filter_eq_nil_iff.mpr fun a ha ↦ by simp [hhigh a ha]
    rw [h₁, h₂]
  · rw [after, List.filter_append, List.filter_cons_of_neg (by simp)]
    have h₁ : before.filter (fun a ↦ (some (key x)).all fun c ↦ decide (c < key a)) = [] :=
      List.filter_eq_nil_iff.mpr fun a ha ↦ by simp [(hlow a ha).le]
    have h₂ : rest.filter (fun a ↦ (some (key x)).all fun c ↦ decide (c < key a)) = rest :=
      List.filter_eq_self.mpr fun a ha ↦ by simp [hhigh a ha]
    rw [h₁, h₂, List.nil_append]

theorem upTo_append_after (h : Ascending key l) (cursor : Option β) :
    upTo key cursor l ++ after key cursor l = l := by
  cases cursor with
  | none => simp
  | some c =>
    induction l with
    | nil => rfl
    | cons a rest ih =>
      have hrest : Ascending key rest := h.tail
      by_cases ha : key a ≤ c
      · rw [upTo, after, List.filter_cons_of_pos (by simpa using ha),
          List.filter_cons_of_neg (by simpa using ha), List.cons_append]
        exact congrArg (a :: ·) (ih hrest)
      · have hgt : ∀ b ∈ rest, ¬key b ≤ c := by
          intro b hb hle
          exact ha ((List.rel_of_pairwise_cons h hb).le.trans hle)
        have hnone : upTo key (some c) rest = [] :=
          List.filter_eq_nil_iff.mpr fun b hb ↦ by simpa using hgt b hb
        rw [upTo, List.filter_cons_of_neg (by simpa using ha), ← upTo, hnone, after,
          List.filter_cons_of_pos (by simpa using ha), List.nil_append]
        congr 1
        exact List.filter_eq_self.mpr fun b hb ↦ by simpa using hgt b hb

theorem batch_step (h : Ascending key l) {n : ℕ} {x : α}
    (hlast : (batch key n cursor l).getLast? = some x) :
    upTo key (some (key x)) l = upTo key cursor l ++ batch key n cursor l ∧
      after key (some (key x)) l = (after key cursor l).drop n := by
  obtain ⟨init, hinit⟩ := List.getLast?_eq_some_iff.mp hlast
  have hsplit : l = (upTo key cursor l ++ init) ++ x :: (after key cursor l).drop n := by
    calc l = upTo key cursor l ++ ((after key cursor l).take n ++ (after key cursor l).drop n) := by
          rw [List.take_append_drop, upTo_append_after h]
      _ = _ := by
          rw [← batch, hinit]
          simp
  have hcut := cut_at (hsplit ▸ h)
  rw [← hsplit] at hcut
  rw [hcut.1, hcut.2, hinit, List.append_assoc]
  exact ⟨rfl, rfl⟩

theorem batch_eq_nil_iff {n : ℕ} (hn : 0 < n) :
    batch key n cursor l = [] ↔ after key cursor l = [] := by
  simp [batch, hn.ne']

def window (key : α → β) (cursor : Option β) (bound : β) (l : List α) : List α :=
  upTo key (some bound) (after key cursor l)

theorem upTo_append_window (h : Ascending key l) {bound : β} (hle : ∀ c ∈ cursor, c ≤ bound) :
    upTo key cursor l ++ window key cursor bound l = upTo key (some bound) l := by
  have hsplit := congrArg (upTo key (some bound)) (upTo_append_after h cursor)
  rw [upTo, List.filter_append] at hsplit
  rw [← upTo, ← upTo, ← window] at hsplit
  have hkeep : upTo key (some bound) (upTo key cursor l) = upTo key cursor l := by
    cases cursor with
    | none => simp [upTo]
    | some c =>
      apply List.filter_eq_self.mpr
      intro a ha
      have hbound := (mem_upTo.mp ha).2.trans (hle c rfl)
      simpa using hbound
  rw [hkeep] at hsplit
  exact hsplit

/-- Take the batches of a table one after another, from a cursor on; the body of the loop can
change the table. -/
def forBatches (key : α → β) (n : ℕ) (rows : σ → List α) (f : σ → List α → σ) :
    ℕ → Option β → σ → Option σ
  | 0, _, _ => none
  | fuel + 1, cursor, s =>
    match (batch key n cursor (rows s)).getLast? with
    | none => some s
    | some x =>
      forBatches key n rows f fuel (some (key x)) (f s (batch key n cursor (rows s)))

theorem after_eq_of_le {c c' : β} {l' : List α} (hle : c ≤ c')
    (h : after key (some c) l = after key (some c) l') :
    after key (some c') l = after key (some c') l' := by
  have hfilter : ∀ rows : List α, after key (some c') rows =
      after key (some c') (after key (some c) rows) := by
    intro rows
    rw [after, after, after, List.filter_filter]
    refine List.filter_congr fun a _ ↦ ?_
    by_cases ha : c' < key a
    · simp [ha, hle.trans_lt ha]
    · simp [ha]
  rw [hfilter, h, ← hfilter]

theorem after_map {f : α → α} (hkey : ∀ a, key (f a) = key a) {c : β}
    (hf : ∀ a, c < key a → f a = a) : after key (some c) (l.map f) = after key (some c) l := by
  rw [after, List.filter_map]
  have hpred : (fun a ↦ (some c).all fun c ↦ decide (c < key a)) ∘ f =
      fun a ↦ (some c).all fun c ↦ decide (c < key a) := by
    funext a
    rw [Function.comp_apply, hkey]
  rw [hpred, ← after]
  calc (after key (some c) l).map f = (after key (some c) l).map id :=
        List.map_congr_left fun a ha ↦ hf a (mem_after.mp ha).2
    _ = after key (some c) l := List.map_id _

/-- A step that leaves the rows beyond its own as they are. -/
structure KeepsRest (key : α → β) (rows : σ → List α) (g : σ → α → σ) : Prop where
  ascending : ∀ s a, Ascending key (rows s) → Ascending key (rows (g s a))
  rest : ∀ s a, after key (some (key a)) (rows (g s a)) = after key (some (key a)) (rows s)

theorem KeepsRest.foldl {rows : σ → List α} {g : σ → α → σ} (h : KeepsRest key rows g)
    {part : List α} {c : β} (hle : ∀ a ∈ part, key a ≤ c) {s : σ} (hs : Ascending key (rows s)) :
    Ascending key (rows (part.foldl g s)) ∧
      after key (some c) (rows (part.foldl g s)) = after key (some c) (rows s) := by
  induction part generalizing s with
  | nil => exact ⟨hs, rfl⟩
  | cons a part ih =>
    obtain ⟨hasc, hrest⟩ := ih (fun b hb ↦ hle b (List.mem_cons_of_mem a hb)) (h.ascending s a hs)
    exact ⟨hasc, hrest.trans (after_eq_of_le (hle a List.mem_cons_self) (h.rest s a))⟩

theorem forBatches_eq {n : ℕ} (hn : 0 < n) {rows : σ → List α} {f : σ → List α → σ}
    {g : σ → α → σ} (hkeep : KeepsRest key rows g)
    (hf : ∀ s (part : List α), Ascending key part → f s part = part.foldl g s)
    {fuel : ℕ} {s : σ} (hs : Ascending key (rows s))
    (hfuel : (after key cursor (rows s)).length < fuel) :
    forBatches key n rows f fuel cursor s = some ((after key cursor (rows s)).foldl g s) := by
  induction fuel generalizing cursor s with
  | zero => omega
  | succ fuel ih =>
    rw [forBatches]
    cases hlast : (batch key n cursor (rows s)).getLast? with
    | none =>
      rw [List.getLast?_eq_none_iff, batch_eq_nil_iff hn] at hlast
      rw [hlast]
      rfl
    | some x =>
      obtain ⟨-, hafter⟩ := batch_step hs hlast
      have hpart : Ascending key (batch key n cursor (rows s)) :=
        (ascending_filter hs _).sublist (List.take_sublist n _)
      have hle : ∀ a ∈ batch key n cursor (rows s), key a ≤ key x := by
        intro a ha
        obtain ⟨init, hinit⟩ := List.getLast?_eq_some_iff.mp hlast
        rw [hinit, List.mem_append, List.mem_singleton] at ha
        obtain ha | rfl := ha
        · have hsplit := hinit ▸ hpart
          exact ((List.pairwise_append.mp hsplit).2.2 a ha x (List.mem_singleton_self x)).le
        · exact le_rfl
      obtain ⟨hasc, hrest⟩ := hkeep.foldl hle hs
      rw [← hf s _ hpart] at hasc hrest
      have hne : after key cursor (rows s) ≠ [] := by
        intro hnil
        rw [batch, hnil, List.take_nil] at hlast
        cases hlast
      have hlength := List.length_pos_iff.mpr hne
      have hfuel' : (after key (some (key x)) (rows (f s (batch key n cursor (rows s))))).length <
          fuel := by
        rw [hrest, hafter, List.length_drop]
        omega
      dsimp only
      rw [ih hasc hfuel', hrest, hafter, hf s _ hpart, batch, ← List.foldl_append,
        List.take_append_drop]

end QueQiao.Lib.Keyset
