import Mathlib.Data.Nat.Find
import Mathlib.Logic.Function.Iterate

namespace QueQiao.Lib.Polling

/-- The answer of one poll; `ready none` is the end of the stream. -/
inductive Poll (α : Type)
  | pending
  | ready (item : Option α)

def Poll.map {α β : Type} (f : α → β) : Poll α → Poll β
  | .pending => .pending
  | .ready item => .ready (item.map f)

/-- A stream as the state it is in and what a poll makes of it. -/
structure PollStream (α : Type) where
  State : Type
  start : State
  poll : State → Poll α × State

namespace PollStream

variable {α β ε τ : Type}

def state (s : PollStream α) (n : ℕ) : s.State := (fun x ↦ (s.poll x).2)^[n] s.start

def answer (s : PollStream α) (n : ℕ) : Poll α := (s.poll (s.state n)).1

theorem state_succ (s : PollStream α) (n : ℕ) : s.state (n + 1) = (s.poll (s.state n)).2 :=
  Function.iterate_succ_apply' _ n s.start

theorem state_invariant {s : PollStream α} {inv : s.State → Prop} (h₀ : inv s.start)
    (hstep : ∀ x, inv x → inv (s.poll x).2) (n : ℕ) : inv (s.state n) := by
  induction n with
  | zero => exact h₀
  | succ n ih =>
    rw [state_succ]
    exact hstep _ ih

/-- What a reader takes from a state on until the stream ends. -/
inductive Emits (s : PollStream α) : s.State → List α → Prop
  | ended {x : s.State} : (s.poll x).1 = .ready none → Emits s x []
  | pending {x : s.State} {items : List α} :
      (s.poll x).1 = .pending → Emits s (s.poll x).2 items → Emits s x items
  | item {x : s.State} {a : α} {items : List α} :
      (s.poll x).1 = .ready (some a) → Emits s (s.poll x).2 items → Emits s x (a :: items)

def ofList (items : List α) : PollStream α where
  State := List α
  start := items
  poll
    | [] => (.ready none, [])
    | a :: rest => (.ready (some a), rest)

/-- The item of the `n`-th poll, by a reader that stops at the end of the stream. -/
def Delivers (s : PollStream α) (n : ℕ) (a : α) : Prop :=
  s.answer n = .ready (some a) ∧ ∀ k < n, s.answer k ≠ .ready none

structure TerminalOn (bad : α → Prop) (s : PollStream α) : Prop where
  once : ∀ m n a b, s.Delivers m a → s.Delivers n b → bad a → bad b → m = n
  ends : ∀ n a, s.Delivers n a → bad a → ∃ m > n, s.answer m = .ready none

/-- After a bad item the stream comes to its end without another one. -/
def StopsAfter (bad : α → Prop) (s : PollStream α) : Prop :=
  ∀ n a, s.Delivers n a → bad a →
    ∃ m > n, s.answer m = .ready none ∧
      ∀ k, n < k → k < m → ∀ b, s.answer k = .ready (some b) → ¬bad b

theorem terminalOn_iff_stopsAfter {bad : α → Prop} {s : PollStream α} :
    s.TerminalOn bad ↔ s.StopsAfter bad := by
  classical
  constructor
  · intro h n a hn hbad
    have hex := h.ends n a hn hbad
    obtain ⟨hgt, hend⟩ := Nat.find_spec hex
    refine ⟨Nat.find hex, hgt, hend, ?_⟩
    intro k hnk hkm b hb hbadb
    have hk : s.Delivers k b := by
      refine ⟨hb, fun j hj hj' ↦ ?_⟩
      rcases Nat.lt_or_ge n j with hnj | hjn
      · exact Nat.find_min hex (by omega) ⟨hnj, hj'⟩
      · rcases Nat.lt_or_eq_of_le hjn with hlt | rfl
        · exact hn.2 j hlt hj'
        · rw [hn.1] at hj'
          cases hj'
    have heq := h.once n k a b hn hk hbad hbadb
    omega
  · intro h
    have hnot : ∀ m n a b, s.Delivers m a → s.Delivers n b → bad a → bad b → ¬m < n := by
      intro m n a b hm hn ha hb hlt
      obtain ⟨j, hj, hend, hgood⟩ := h m a hm ha
      rcases Nat.lt_or_ge n j with hnj | hjn
      · exact hgood n hlt hnj b hn.1 hb
      · rcases Nat.lt_or_eq_of_le hjn with hjn | rfl
        · exact hn.2 j hjn hend
        · rw [hn.1] at hend
          cases hend
    constructor
    · intro m n a b hm hn ha hb
      have h₁ := hnot m n a b hm hn ha hb
      have h₂ := hnot n m b a hn hm hb ha
      omega
    · intro n a hn ha
      obtain ⟨m, hm, hend, -⟩ := h n a hn ha
      exact ⟨m, hm, hend⟩

theorem StopsAfter.congr {bad : α → Prop} {bad' : β → Prop} {s : PollStream α} {s' : PollStream β}
    (hend : ∀ n, s.answer n = .ready none ↔ s'.answer n = .ready none)
    (hbad : ∀ n, (∃ a, s.answer n = .ready (some a) ∧ bad a) ↔
      ∃ b, s'.answer n = .ready (some b) ∧ bad' b)
    (h : s.StopsAfter bad) : s'.StopsAfter bad' := by
  intro n b hn hb
  obtain ⟨a, ha, hbada⟩ := (hbad n).mpr ⟨b, hn.1, hb⟩
  have hdel : s.Delivers n a := ⟨ha, fun k hk hk' ↦ hn.2 k hk ((hend k).mp hk')⟩
  obtain ⟨m, hm, hendm, hgood⟩ := h n a hdel hbada
  refine ⟨m, hm, (hend m).mp hendm, ?_⟩
  intro k hnk hkm b' hb' hbad'
  obtain ⟨a', ha', hbada'⟩ := (hbad k).mpr ⟨b', hb', hbad'⟩
  exact hgood k hnk hkm a' ha' hbada'

theorem terminalOn_of_next {bad : α → Prop} {s : PollStream α}
    (h : ∀ n a, s.answer n = .ready (some a) → bad a → s.answer (n + 1) = .ready none) :
    s.TerminalOn bad := by
  rw [terminalOn_iff_stopsAfter]
  intro n a hn hbad
  refine ⟨n + 1, Nat.lt_succ_self n, h n a hn.1 hbad, ?_⟩
  intro k hnk hk
  omega

/-- Items up to the first error; after it the stream is not polled again. -/
def terminateOnError (s : PollStream (Except ε α)) : PollStream (Except ε α) where
  State := s.State × Bool
  start := (s.start, false)
  poll x :=
    if x.2 then (.ready none, x)
    else
      let next := s.poll x.1
      match next.1 with
      | .ready (some (.error error)) => (.ready (some (.error error)), (next.2, true))
      | .ready none => (.ready none, (next.2, true))
      | other => (other, (next.2, false))

def tap (g : τ → Poll α → τ) (t₀ : τ) (s : PollStream α) : PollStream α where
  State := s.State × τ
  start := (s.start, t₀)
  poll x := ((s.poll x.1).1, ((s.poll x.1).2, g x.2 (s.poll x.1).1))

theorem state_tap (g : τ → Poll α → τ) (t₀ : τ) (s : PollStream α) (n : ℕ) :
    ((s.tap g t₀).state n).1 = s.state n := by
  induction n with
  | zero => rfl
  | succ n ih =>
    rw [state_succ, state_succ, ← ih]
    rfl

theorem answer_tap (g : τ → Poll α → τ) (t₀ : τ) (s : PollStream α) (n : ℕ) :
    (s.tap g t₀).answer n = s.answer n :=
  congrArg (fun x ↦ (s.poll x).1) (state_tap g t₀ s n)

/-- `map` by a closure with a state. -/
def mapAccum (f : τ → α → β × τ) (t₀ : τ) (s : PollStream α) : PollStream β where
  State := s.State × τ
  start := (s.start, t₀)
  poll x :=
    let next := s.poll x.1
    match next.1 with
    | .ready (some a) => (.ready (some (f x.2 a).1), (next.2, (f x.2 a).2))
    | .ready none => (.ready none, (next.2, x.2))
    | .pending => (.pending, (next.2, x.2))

theorem poll_mapAccum_snd (f : τ → α → β × τ) (t₀ : τ) (s : PollStream α) (x : s.State × τ) :
    (((s.mapAccum f t₀).poll x).2).1 = (s.poll x.1).2 := by
  simp only [mapAccum]
  split <;> rfl

theorem state_mapAccum (f : τ → α → β × τ) (t₀ : τ) (s : PollStream α) (n : ℕ) :
    ((s.mapAccum f t₀).state n).1 = s.state n := by
  induction n with
  | zero => rfl
  | succ n ih =>
    rw [state_succ, state_succ, ← ih]
    exact poll_mapAccum_snd f t₀ s _

theorem answer_mapAccum (f : τ → α → β × τ) (t₀ : τ) (s : PollStream α) (n : ℕ) :
    (s.mapAccum f t₀).answer n =
      (s.answer n).map fun a ↦ (f ((s.mapAccum f t₀).state n).2 a).1 := by
  have h : s.answer n = (s.poll ((s.mapAccum f t₀).state n).1).1 :=
    congrArg (fun x ↦ (s.poll x).1) (state_mapAccum f t₀ s n).symm
  rw [h, answer]
  generalize (s.mapAccum f t₀).state n = x
  simp only [mapAccum]
  split
  all_goals
    rename_i heq
    rw [heq]
    rfl

theorem terminalOn_mapAccum_iff {bad : α → Prop} {bad' : β → Prop} {f : τ → α → β × τ}
    (hf : ∀ t a, bad' (f t a).1 ↔ bad a) (t₀ : τ) (s : PollStream α) :
    (s.mapAccum f t₀).TerminalOn bad' ↔ s.StopsAfter bad := by
  have hend : ∀ n, s.answer n = .ready none ↔ (s.mapAccum f t₀).answer n = .ready none := by
    intro n
    rw [answer_mapAccum]
    cases s.answer n with
    | pending => simp [Poll.map]
    | ready item => cases item <;> simp [Poll.map]
  have hbad : ∀ n, (∃ a, s.answer n = .ready (some a) ∧ bad a) ↔
      ∃ b, (s.mapAccum f t₀).answer n = .ready (some b) ∧ bad' b := by
    intro n
    rw [answer_mapAccum]
    cases s.answer n with
    | pending => simp [Poll.map]
    | ready item => cases item <;> simp [Poll.map, hf]
  rw [terminalOn_iff_stopsAfter]
  constructor
  · exact StopsAfter.congr (fun n ↦ (hend n).symm) fun n ↦ (hbad n).symm
  · exact StopsAfter.congr hend hbad

theorem stopsAfter_tap_iff {bad : α → Prop} (g : τ → Poll α → τ) (t₀ : τ) (s : PollStream α) :
    (s.tap g t₀).StopsAfter bad ↔ s.StopsAfter bad := by
  have h := answer_tap g t₀ s
  constructor
  · exact StopsAfter.congr (fun n ↦ by rw [h]) fun n ↦ by rw [h]
  · exact StopsAfter.congr (fun n ↦ by rw [h]) fun n ↦ by rw [h]

/-- `flat_map` by a closure with a state that gives at least one item each time. -/
def flatMap (f : τ → α → List β × τ) (hne : ∀ t a, (f t a).1 ≠ []) (t₀ : τ)
    (s : PollStream α) : PollStream β where
  State := s.State × τ × List β
  start := (s.start, t₀, [])
  poll x :=
    match x.2.2 with
    | b :: rest => (.ready (some b), (x.1, x.2.1, rest))
    | [] =>
      let next := s.poll x.1
      match next.1 with
      | .ready (some a) =>
        (.ready (some ((f x.2.1 a).1.head (hne x.2.1 a))),
          (next.2, (f x.2.1 a).2, (f x.2.1 a).1.tail))
      | .ready none => (.ready none, (next.2, x.2.1, []))
      | .pending => (.pending, (next.2, x.2.1, []))

/-- The first stream to its end and then the second, which sees what the first has left. -/
def chain (s : PollStream α) (second : s.State → τ → Poll α × τ) (t₀ : τ) : PollStream α where
  State := s.State × Bool × τ
  start := (s.start, false, t₀)
  poll x :=
    if x.2.1 then
      let next := second x.1 x.2.2
      (next.1, (x.1, true, next.2))
    else
      let next := s.poll x.1
      match next.1 with
      | .ready none =>
        let last := second next.2 x.2.2
        (last.1, (next.2, true, last.2))
      | other => (other, (next.2, false, x.2.2))

end PollStream

end QueQiao.Lib.Polling
