import Mathlib.Data.List.Count
import Mathlib.Data.List.Range
import QueQiao.Lib.Slots
import QueQiao.Lib.Transition

namespace QueQiao.Engine

open Lib.Slots Lib.Transition
open scoped List

/-- Where a call of `acquire` stands, up to the drop of its guard. A connection is named by its
turn in the order of opening. -/
inductive Phase
  | waiting
  | permitted
  -- between `take_idle` and `connect`
  | taken (idle : Option ℕ)
  | holding (conn : ℕ)
  -- without a connection, and not yet without its permit
  | releasing
  | done
  deriving DecidableEq, Repr

structure ReaderPool where
  permits : ℕ
  idle : List ℕ := []
  opened : ℕ := 0
  closed : List ℕ := []
  tasks : List Phase := []
  deriving DecidableEq, Repr

def new (maxReaders : ℕ) : ReaderPool where
  permits := max maxReaders 1

inductive Event
  | acquire
  | giveUp (i : ℕ)
  | grant (i : ℕ)
  | takeIdle (i : ℕ)
  | connect (i : ℕ) (ok : Bool)
  | drop (i : ℕ)
  | release (i : ℕ)
  deriving DecidableEq, Repr

def ReaderPool.setTask (p : ReaderPool) (i : ℕ) (phase : Phase) : ReaderPool :=
  { p with tasks := p.tasks.set i phase }

/-- `self.take_idle().unwrap_or(self.inner.db.connect()?)`: the argument is evaluated whatever
`take_idle` has returned. A new connection that is not needed is dropped, and so is the one taken
when no new one can be opened. -/
def connect (p : ReaderPool) (i : ℕ) (idle : Option ℕ) (ok : Bool) : ReaderPool :=
  if ok then
    match idle with
    | some conn =>
      { p with opened := p.opened + 1, closed := p.opened :: p.closed }.setTask i (.holding conn)
    | none => { p with opened := p.opened + 1 }.setTask i (.holding p.opened)
  else { p with closed := idle.toList ++ p.closed }.setTask i .releasing

def step (p : ReaderPool) : Event → Option ReaderPool
  | .acquire => some { p with tasks := p.tasks ++ [.waiting] }
  | .giveUp i => if p.tasks[i]? = some .waiting then some (p.setTask i .done) else none
  | .grant i =>
    if p.tasks[i]? = some .waiting ∧ 0 < p.permits then
      some ({ p with permits := p.permits - 1 }.setTask i .permitted)
    else none
  | .takeIdle i =>
    if p.tasks[i]? = some .permitted then
      some ({ p with idle := p.idle.tail }.setTask i (.taken p.idle.head?))
    else none
  | .connect i ok =>
    match p.tasks[i]? with
    | some (.taken idle) => some (connect p i idle ok)
    | _ => none
  | .drop i =>
    match p.tasks[i]? with
    | some (.holding conn) => some ({ p with idle := conn :: p.idle }.setTask i .releasing)
    | _ => none
  | .release i =>
    if p.tasks[i]? = some .releasing then
      some ({ p with permits := p.permits + 1 }.setTask i .done)
    else none

def Phase.permits : Phase → ℕ
  | .waiting | .done => 0
  | .permitted | .taken _ | .holding _ | .releasing => 1

/-- A task that has looked for an idle connection has one or is about to open one. -/
def Phase.claims : Phase → ℕ
  | .taken _ | .holding _ => 1
  | .waiting | .permitted | .releasing | .done => 0

def Phase.conns : Phase → List ℕ
  | .taken idle => idle.toList
  | .holding conn => [conn]
  | .waiting | .permitted | .releasing | .done => []

def ReaderPool.held (p : ReaderPool) : List ℕ := p.tasks.flatMap Phase.conns

/-- The permits are with the semaphore or a task, idle and claimed connections keep to the number
of permits, and every connection that was opened is in one place. -/
structure Inv (cap : ℕ) (p : ReaderPool) : Prop where
  permits : p.permits + (p.tasks.map Phase.permits).sum = cap
  claims : p.idle.length + (p.tasks.map Phase.claims).sum ≤ cap
  places : p.idle ++ p.held ++ p.closed ~ List.range p.opened

theorem claims_le_permits (tasks : List Phase) :
    (tasks.map Phase.claims).sum ≤ (tasks.map Phase.permits).sum := by
  refine sum_map_le_sum_map (fun phase ↦ ?_) tasks
  cases phase with
  | waiting | done => exact Nat.le_refl 0
  | permitted | releasing => exact Nat.zero_le 1
  | taken idle | holding conn => exact Nat.le_refl 1

variable {cap maxReaders : ℕ} {p p' : ReaderPool} {i : ℕ} {phase phase' : Phase}

theorem inv_new : Inv (max maxReaders 1) (new maxReaders) where
  permits := rfl
  claims := Nat.zero_le _
  places := .refl _

theorem Inv.setTask (h : Inv cap p) (hi : p.tasks[i]? = some phase) {permits opened : ℕ}
    {idle closed : List ℕ} (hpermits : permits + phase'.permits = p.permits + phase.permits)
    (hclaims : idle.length + phase'.claims ≤ p.idle.length + phase.claims ∨ idle = [])
    (hplaces : ∀ rest, p.idle ++ (rest ++ phase.conns) ++ p.closed ~ List.range p.opened →
      idle ++ (rest ++ phase'.conns) ++ closed ~ List.range opened) :
    Inv cap (ReaderPool.setTask ⟨permits, idle, opened, closed, p.tasks⟩ i phase') := by
  have hp := sum_map_set hi Phase.permits phase'
  have hc := sum_map_set hi Phase.claims phase'
  have hle := claims_le_permits (p.tasks.set i phase')
  have hpi := h.permits
  have hci := h.claims
  have hpi' : permits + ((p.tasks.set i phase').map Phase.permits).sum = cap := by omega
  refine ⟨hpi', ?_, ?_⟩
  · change idle.length + ((p.tasks.set i phase').map Phase.claims).sum ≤ cap
    rcases hclaims with hlen | rfl
    · omega
    · rw [List.length_nil]
      omega
  · -- the tasks without the one that moves
    obtain ⟨hl, hset⟩ := eq_append_of_getElem? hi phase'
    let rest := (p.tasks.take i).flatMap Phase.conns ++ (p.tasks.drop (i + 1)).flatMap Phase.conns
    have hheld : p.held ~ rest ++ phase.conns := by
      rw [ReaderPool.held]
      nth_rewrite 1 [hl]
      simp only [List.flatMap_append, List.flatMap_cons, rest, List.append_assoc]
      exact List.perm_append_comm.append_left _
    have hheld' : (p.tasks.set i phase').flatMap Phase.conns ~ rest ++ phase'.conns := by
      rw [hset]
      simp only [List.flatMap_append, List.flatMap_cons, rest, List.append_assoc]
      exact List.perm_append_comm.append_left _
    have hbefore := ((hheld.append_left p.idle).append_right p.closed).symm.trans h.places
    exact ((hheld'.append_left idle).append_right closed).trans (hplaces rest hbefore)

theorem inv_step {e : Event} (h : Inv cap p) (hs : step p e = some p') : Inv cap p' := by
  cases e with
  | acquire =>
    obtain rfl := Option.some.inj hs
    refine ⟨?_, ?_, ?_⟩
    · simpa [Phase.permits] using h.permits
    · simpa [Phase.claims] using h.claims
    · simpa [ReaderPool.held, Phase.conns] using h.places
  | giveUp i =>
    simp only [step, Option.ite_none_right_eq_some, Option.some.injEq] at hs
    obtain ⟨hi, rfl⟩ := hs
    exact h.setTask hi rfl (.inl le_rfl) fun _ hrest ↦ hrest
  | grant i =>
    simp only [step, Option.ite_none_right_eq_some, Option.some.injEq] at hs
    obtain ⟨⟨hi, hpos⟩, rfl⟩ := hs
    refine h.setTask hi ?_ (.inl le_rfl) fun _ hrest ↦ hrest
    exact Nat.sub_add_cancel hpos
  | takeIdle i =>
    simp only [step, Option.ite_none_right_eq_some, Option.some.injEq] at hs
    obtain ⟨hi, rfl⟩ := hs
    cases hidle : p.idle with
    | nil =>
      refine h.setTask hi rfl (.inr rfl) fun rest hrest ↦ ?_
      rwa [hidle] at hrest
    | cons conn idle =>
      refine h.setTask hi rfl (.inl ?_) fun rest hrest ↦ ?_
      · rw [hidle]
        exact le_of_eq (Nat.add_zero _).symm
      · rw [hidle] at hrest
        refine List.Perm.trans (List.Perm.append_right _ ?_) hrest
        have hmove : idle ++ (rest ++ [conn]) ~ conn :: (idle ++ rest) := by
          rw [← List.append_assoc]
          exact List.perm_append_singleton ..
        simpa [Phase.conns] using hmove
  | connect i ok =>
    simp only [step] at hs
    split at hs
    · rename_i idle hi
      obtain rfl := Option.some.inj hs
      cases ok with
      | false =>
        refine h.setTask hi rfl (.inl (Nat.le_succ _)) fun rest hrest ↦ ?_
        simpa [Phase.conns] using hrest
      | true =>
        cases idle with
        | none =>
          refine h.setTask hi rfl (.inl le_rfl) fun rest hrest ↦ ?_
          have hopened := (hrest.append_right [p.opened]).trans (by rw [← List.range_succ])
          refine List.Perm.trans ?_ hopened
          simp only [Phase.conns, Option.toList, List.append_nil, List.append_assoc]
          exact (List.perm_append_comm.append_left _).append_left _
        | some conn =>
          refine h.setTask hi rfl (.inl le_rfl) fun rest hrest ↦ ?_
          have hopened := (hrest.append_right [p.opened]).trans (by rw [← List.range_succ])
          refine List.Perm.trans ?_ hopened
          simp only [Phase.conns, Option.toList, List.append_assoc]
          exact (((List.perm_append_singleton _ _).symm.append_left _).append_left _).append_left _
    · cases hs
  | drop i =>
    simp only [step] at hs
    split at hs
    · rename_i conn hi
      obtain rfl := Option.some.inj hs
      refine h.setTask hi rfl (.inl le_rfl) fun rest hrest ↦ ?_
      refine List.Perm.trans (List.Perm.append_right _ ?_) hrest
      have hmove : conn :: (p.idle ++ rest) ~ p.idle ++ (rest ++ [conn]) := by
        rw [← List.append_assoc]
        exact (List.perm_append_singleton ..).symm
      simpa [Phase.conns] using hmove
    · cases hs
  | release i =>
    simp only [step, Option.ite_none_right_eq_some, Option.some.injEq] at hs
    obtain ⟨hi, rfl⟩ := hs
    exact h.setTask hi rfl (.inl le_rfl) fun _ hrest ↦ hrest

theorem inv_path {tr : List (ReaderPool × Event)} (h : Path step (new maxReaders) tr p) :
    Inv (max maxReaders 1) p :=
  h.invariant_all inv_new fun _ _ _ hs hstep ↦ inv_step hs hstep

theorem length_held_le (p : ReaderPool) : p.held.length ≤ (p.tasks.map Phase.claims).sum := by
  rw [ReaderPool.held, List.length_flatMap]
  refine sum_map_le_sum_map (fun phase ↦ ?_) p.tasks
  cases phase with
  | taken idle =>
    cases idle with
    | none => exact Nat.zero_le 1
    | some conn => exact Nat.le_refl 1
  | holding conn => exact le_rfl
  | waiting | permitted | releasing | done => exact le_rfl

theorem Inv.length_places (h : Inv cap p) :
    p.idle.length + p.held.length + p.closed.length = p.opened := by
  have hlen := h.places.length_eq
  rwa [List.length_append, List.length_append, List.length_range] at hlen

/-- However the calls of `acquire` interleave, no more guards are out than readers are allowed,
idle connections are counted with those that are out, and a connection that is out is with one
guard, neither idle nor closed. -/
theorem readerPool_exclusive {tr : List (ReaderPool × Event)}
    (h : Path step (new maxReaders) tr p) :
    (p.tasks.map Phase.permits).sum ≤ max maxReaders 1 ∧
      p.idle.length + p.held.length ≤ max maxReaders 1 ∧
      ∀ i conn : ℕ, p.tasks[i]? = some (.holding conn) →
        conn ∉ p.idle ∧ conn ∉ p.closed ∧ conn < p.opened ∧
          ∀ j : ℕ, p.tasks[j]? = some (.holding conn) → j = i := by
  have hinv := inv_path h
  have hpermits := hinv.permits
  have hclaims := hinv.claims
  have hheld := length_held_le p
  refine ⟨by omega, by omega, fun i conn hi ↦ ?_⟩
  have hnodup := hinv.places.nodup_iff.mpr List.nodup_range
  have hmem : conn ∈ p.held :=
    List.mem_flatMap.mpr ⟨_, List.mem_of_getElem? hi, List.mem_singleton_self conn⟩
  obtain ⟨hout, -, hclosed⟩ := List.nodup_append.mp hnodup
  obtain ⟨-, hin, hidle⟩ := List.nodup_append.mp hout
  refine ⟨fun hc ↦ hidle conn hc conn hmem rfl,
    fun hc ↦ hclosed conn (List.mem_append_right _ hmem) conn hc rfl, ?_, fun j hj ↦ ?_⟩
  · have hopened : conn ∈ List.range p.opened :=
      hinv.places.mem_iff.mp (List.mem_append_left _ (List.mem_append_right _ hmem))
    exact List.mem_range.mp hopened
  · exact eq_of_mem_of_nodup hin hj hi (List.mem_singleton_self conn) (List.mem_singleton_self conn)

def twoReaders : List (ReaderPool × Event) :=
  [(new 2, .acquire), (⟨2, [], 0, [], [.waiting]⟩, .acquire),
    (⟨2, [], 0, [], [.waiting, .waiting]⟩, .grant 0),
    (⟨1, [], 0, [], [.permitted, .waiting]⟩, .grant 1),
    (⟨0, [], 0, [], [.permitted, .permitted]⟩, .takeIdle 0),
    (⟨0, [], 0, [], [.taken none, .permitted]⟩, .takeIdle 1),
    (⟨0, [], 0, [], [.taken none, .taken none]⟩, .connect 1 true),
    (⟨0, [], 1, [], [.taken none, .holding 0]⟩, .connect 0 true)]

theorem twoReaders_path : Path step (new 2) twoReaders ⟨0, [], 2, [], [.holding 1, .holding 0]⟩ :=
  .snoc (.snoc (.snoc (.snoc (.snoc (.snoc (.snoc (.snoc .nil rfl) rfl) rfl) rfl) rfl) rfl) rfl) rfl

theorem readerPool_exclusive_twoReaders :
    let p : ReaderPool := ⟨0, [], 2, [], [.holding 1, .holding 0]⟩
    (p.tasks.map Phase.permits).sum ≤ 2 ∧ p.idle.length + p.held.length ≤ 2 ∧
      ∀ i conn : ℕ, p.tasks[i]? = some (.holding conn) →
        conn ∉ p.idle ∧ conn ∉ p.closed ∧ conn < p.opened ∧
          ∀ j : ℕ, p.tasks[j]? = some (.holding conn) → j = i :=
  readerPool_exclusive twoReaders_path

/-- The steps by which `acquire` hands out a guard. -/
def Event.handsOut : Event → Bool
  | .connect _ ok => ok
  | _ => false

/-- The steps of the callers of `acquire` that are under way, a timeout apart. -/
def Event.advances : Event → Bool
  | .acquire | .giveUp _ => false
  | .grant _ | .takeIdle _ | .connect _ _ | .drop _ | .release _ => true

theorem opened_step {e : Event} (hs : step p e = some p') :
    p'.opened = p.opened + if e.handsOut then 1 else 0 := by
  cases e with
  | connect i ok =>
    simp only [step] at hs
    split at hs
    · rename_i idle _
      obtain rfl := Option.some.inj hs
      cases ok with
      | false => rfl
      | true => cases idle <;> rfl
    · cases hs
  | acquire =>
    obtain rfl := Option.some.inj hs
    rfl
  | giveUp i | grant i | takeIdle i | release i =>
    simp only [step, Option.ite_none_right_eq_some, Option.some.injEq] at hs
    obtain ⟨-, rfl⟩ := hs
    rfl
  | drop i =>
    simp only [step] at hs
    split at hs
    · obtain rfl := Option.some.inj hs
      rfl
    · cases hs

theorem opened_path {tr : List (ReaderPool × Event)} (h : Path step (new maxReaders) tr p) :
    p.opened = tr.countP fun q ↦ q.2.handsOut := by
  induction h with
  | nil => rfl
  | @snoc tr s t e _ hs ih =>
    rw [opened_step hs, ih, List.countP_append, List.countP_singleton]

theorem exists_step (hi : p.tasks[i]? = some phase) (hphase : 0 < phase.permits) :
    ∃ e : Event, e.advances ∧ (step p e).isSome := by
  cases phase with
  | waiting | done => exact absurd hphase (Nat.lt_irrefl 0)
  | permitted => exact ⟨.takeIdle i, rfl, by simp [step, hi]⟩
  | taken idle => exact ⟨.connect i true, rfl, by simp [step, hi]⟩
  | holding conn => exact ⟨.drop i, rfl, by simp [step, hi]⟩
  | releasing => exact ⟨.release i, rfl, by simp [step, hi]⟩

/-- Every guard that was handed out has opened a connection, idle ones or not; an opened
connection is idle, out or closed. With no call under way all permits are back, and all but as
many connections as readers are allowed are closed again. A call that waits is not stuck. -/
theorem readerPool_accounts {tr : List (ReaderPool × Event)}
    (h : Path step (new maxReaders) tr p) :
    p.opened = (tr.countP fun q ↦ q.2.handsOut) ∧
      p.idle.length + p.held.length + p.closed.length = p.opened ∧
      ((∀ phase ∈ p.tasks, phase = .done) →
        p.permits = max maxReaders 1 ∧ p.opened ≤ p.closed.length + max maxReaders 1) ∧
      ((∃ i : ℕ, p.tasks[i]? = some .waiting) → ∃ e : Event, e.advances ∧ (step p e).isSome) := by
  have hinv := inv_path h
  have hpermits := hinv.permits
  have hclaims := hinv.claims
  have hheld := length_held_le p
  have hplaces := hinv.length_places
  refine ⟨opened_path h, hplaces, fun hdone ↦ ?_, fun ⟨i, hi⟩ ↦ ?_⟩
  · have hzero : (p.tasks.map Phase.permits).sum = 0 := by
      refine List.sum_eq_zero fun n hn ↦ ?_
      obtain ⟨phase, hphase, rfl⟩ := List.mem_map.mp hn
      rw [hdone phase hphase]
      rfl
    have hle := claims_le_permits p.tasks
    exact ⟨by omega, by omega⟩
  · by_cases hpos : 0 < p.permits
    · exact ⟨.grant i, rfl, by simp [step, hi, hpos]⟩
    · obtain ⟨j, phase, hj, hphase⟩ :=
        exists_of_sum_map_pos (f := Phase.permits) (l := p.tasks) (by omega)
      exact exists_step hj hphase

/-- A pool for one reader, and a call of `acquire` up to its guard. -/
def oneReader : List (ReaderPool × Event) :=
  [(new 0, .acquire), (⟨1, [], 0, [], [.waiting]⟩, .grant 0),
    (⟨0, [], 0, [], [.permitted]⟩, .takeIdle 0), (⟨0, [], 0, [], [.taken none]⟩, .connect 0 true)]

theorem oneReader_path : Path step (new 0) oneReader ⟨0, [], 1, [], [.holding 0]⟩ :=
  .snoc (.snoc (.snoc (.snoc .nil rfl) rfl) rfl) rfl

theorem readerPool_accounts_again :
    let p : ReaderPool := ⟨1, [0], 2, [1], [.done, .done]⟩
    p.permits = 1 ∧ p.opened ≤ p.closed.length + 1 := by
  have hagain : Path step (new 0) (oneReader ++
      [(⟨0, [], 1, [], [.holding 0]⟩, .drop 0)] ++ [(⟨0, [0], 1, [], [.releasing]⟩, .release 0)] ++
      [(⟨1, [0], 1, [], [.done]⟩, .acquire)] ++ [(⟨1, [0], 1, [], [.done, .waiting]⟩, .grant 1)] ++
      [(⟨0, [0], 1, [], [.done, .permitted]⟩, .takeIdle 1)] ++
      [(⟨0, [], 1, [], [.done, .taken (some 0)]⟩, .connect 1 true)] ++
      [(⟨0, [], 2, [1], [.done, .holding 0]⟩, .drop 1)] ++
      [(⟨0, [0], 2, [1], [.done, .releasing]⟩, .release 1)])
      ⟨1, [0], 2, [1], [.done, .done]⟩ :=
    .snoc (.snoc (.snoc (.snoc (.snoc (.snoc (.snoc (.snoc oneReader_path rfl) rfl) rfl) rfl)
      rfl) rfl) rfl) rfl
  exact (readerPool_accounts hagain).2.2.1 (by decide)

end QueQiao.Engine
