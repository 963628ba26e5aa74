import Mathlib.Logic.Basic

namespace QueQiao.Lib.Transactions

variable {S ε : Type*}

/-- How a database answers a statement: it runs it, or it fails with an error that keeps the
transaction or that has ended it. -/
inductive Answer (ε : Type*)
  | done
  | failed (error : ε)
  | ended (error : ε)
  deriving DecidableEq

/-- An answer that leaves a transaction open where the statement was to close it. -/
def Answer.keepsOpen : Answer ε → Bool
  | .failed _ => true
  | _ => false

/-- A statement with its answer. What the database does not allow fails alone. -/
structure Statement (S ε : Type*) where
  run : S → Except ε S
  answer : Answer ε

/-- What is committed, and what an open transaction has made of it. -/
structure Connection (S : Type*) where
  committed : S
  transaction : Option S := none
  deriving DecidableEq

section Semantics

-- the error of a statement that does not fit: a transaction is open, or none is
variable (misuse : ε)

namespace Connection

def close (c : Connection S) : Connection S := { c with transaction := none }

def begin (c : Connection S) (answer : Answer ε) : Connection S × Except ε Unit :=
  match c.transaction, answer with
  | some _, _ => (c, .error misuse)
  | none, .done => ({ c with transaction := some c.committed }, .ok ())
  | none, .failed error => (c, .error error)
  | none, .ended error => (c, .error error)

def execute (c : Connection S) (statement : Statement S ε) : Connection S × Except ε Unit :=
  match statement.answer with
  | .failed error => (c, .error error)
  | .ended error => (c.close, .error error)
  | .done =>
    match c.transaction with
    | some s =>
      match statement.run s with
      | .ok s' => ({ c with transaction := some s' }, .ok ())
      | .error error => (c, .error error)
    | none =>
      match statement.run c.committed with
      | .ok s' => ({ c with committed := s' }, .ok ())
      | .error error => (c, .error error)

def commit (c : Connection S) (answer : Answer ε) : Connection S × Except ε Unit :=
  match c.transaction, answer with
  | none, _ => (c, .error misuse)
  | some s, .done => (⟨s, none⟩, .ok ())
  | some _, .failed error => (c, .error error)
  | some _, .ended error => (c.close, .error error)

def rollback (c : Connection S) (answer : Answer ε) : Connection S × Except ε Unit :=
  match c.transaction, answer with
  | none, _ => (c, .error misuse)
  | some _, .done => (c.close, .ok ())
  | some _, .failed error => (c, .error error)
  | some _, .ended error => (c.close, .error error)

def executeAll (c : Connection S) : List (Statement S ε) → Connection S × Except ε Unit
  | [] => (c, .ok ())
  | statement :: rest =>
    match c.execute statement with
    | (c, .ok ()) => c.executeAll rest
    | (c, .error error) => (c, .error error)

end Connection

end Semantics

/-- What becomes of the statements of a transaction: they all run, or one fails, and the transaction
is still open or not. -/
inductive Fate (S ε : Type*)
  | through (s : S)
  | stays (s : S) (error : ε)
  | ended (error : ε)

def Fate.result (committed : S) : Fate S ε → Connection S × Except ε Unit
  | .through s => (⟨committed, some s⟩, .ok ())
  | .stays s error => (⟨committed, some s⟩, .error error)
  | .ended error => (⟨committed, none⟩, .error error)

def fate : List (Statement S ε) → S → Fate S ε
  | [], s => .through s
  | statement :: rest, s =>
    match statement.answer with
    | .failed error => .stays s error
    | .ended error => .ended error
    | .done =>
      match statement.run s with
      | .ok s' => fate rest s'
      | .error error => .stays s error

theorem fate_cons_through {statement : Statement S ε} {rest : List (Statement S ε)} {s t : S}
    (h : fate (statement :: rest) s = .through t) :
    ∃ s', statement.run s = .ok s' ∧ fate rest s' = .through t := by
  rw [fate] at h
  cases hanswer : statement.answer with
  | failed error => rw [hanswer] at h; cases h
  | ended error => rw [hanswer] at h; cases h
  | done =>
    rw [hanswer] at h
    cases hrun : statement.run s with
    | error error => rw [hrun] at h; cases h
    | ok s' =>
      rw [hrun] at h
      exact ⟨s', rfl, h⟩

namespace Connection

theorem begin_of_open {misuse : ε} {c : Connection S} {t : S} {answer : Answer ε}
    (h : c.transaction = some t) : c.begin misuse answer = (c, .error misuse) := by
  simp only [begin, h]

variable {c : Connection S} {statement : Statement S ε} {committed s s' : S} {error : ε}

theorem execute_failed (h : statement.answer = .failed error) :
    c.execute statement = (c, .error error) := by
  rw [execute, h]

theorem execute_ended (h : statement.answer = .ended error) :
    c.execute statement = (c.close, .error error) := by
  rw [execute, h]

theorem execute_ok (h : statement.answer = .done) (hrun : statement.run s = .ok s') :
    (mk committed (some s)).execute statement = (⟨committed, some s'⟩, .ok ()) := by
  simp only [execute, h, hrun]

theorem execute_refused (h : statement.answer = .done) (hrun : statement.run s = .error error) :
    (mk committed (some s)).execute statement = (⟨committed, some s⟩, .error error) := by
  simp only [execute, h, hrun]

theorem executeAll_cons_ok {c' : Connection S} {rest : List (Statement S ε)}
    (h : c.execute statement = (c', .ok ())) :
    c.executeAll (statement :: rest) = c'.executeAll rest := by
  rw [executeAll, h]

theorem executeAll_cons_error {c' : Connection S} {rest : List (Statement S ε)}
    (h : c.execute statement = (c', .error error)) :
    c.executeAll (statement :: rest) = (c', .error error) := by
  rw [executeAll, h]

theorem executeAll_eq (committed s : S) (statements : List (Statement S ε)) :
    (mk committed (some s)).executeAll statements = (fate statements s).result committed := by
  induction statements generalizing s with
  | nil => rfl
  | cons statement rest ih =>
    rw [fate]
    cases hanswer : statement.answer with
    | failed error => exact executeAll_cons_error (execute_failed hanswer)
    | ended error => exact executeAll_cons_error (execute_ended hanswer)
    | done =>
      cases hrun : statement.run s with
      | error error => exact executeAll_cons_error (execute_refused hanswer hrun)
      | ok s' =>
        rw [executeAll_cons_ok (execute_ok hanswer hrun)]
        exact ih s'

end Connection

structure Ends (ε : Type*) where
  begin : Answer ε
  commit : Answer ε
  rollback : Answer ε

section Pattern

variable (misuse : ε)

/-- The end of a transaction: it is committed if all its statements ran; otherwise it is rolled
back, and the answer to that is ignored. -/
def finish (ends : Ends ε) : Connection S × Except ε Unit → Connection S × Except ε Unit
  | (c, .ok ()) => c.commit misuse ends.commit
  | (c, .error error) => ((c.rollback misuse ends.rollback).1, .error error)

def transact (statements : List (Statement S ε)) (ends : Ends ε) (c : Connection S) :
    Connection S × Except ε Unit :=
  match c.begin misuse ends.begin with
  | (c, .error error) => (c, .error error)
  | (c, .ok ()) => finish misuse ends (c.executeAll statements)

def Fate.leftOpen (ends : Ends ε) : Fate S ε → Bool
  | .through _ => ends.commit.keepsOpen
  | .stays _ _ => ends.rollback.keepsOpen
  | .ended _ => false

def LeavesOpen (statements : List (Statement S ε)) (ends : Ends ε) (s : S) : Prop :=
  ends.begin = .done ∧ (fate statements s).leftOpen ends = true

/-- After an error no transaction is open, and what is committed is what was before. -/
def Clean {β : Type*} (s : S) (result : Connection S × Except ε β) : Prop :=
  ∀ error, result.2 = .error error → result.1 = ⟨s, none⟩

theorem clean_map_iff {β γ : Type*} {s : S} {result : Connection S × Except ε β} (f : β → γ) :
    Clean s (result.1, result.2.map f) ↔ Clean s result := by
  obtain ⟨c, answer⟩ := result
  cases answer with
  | ok b => exact iff_of_true (fun error h ↦ by cases h) fun error h ↦ by cases h
  | error error => exact forall_congr' fun error' ↦ by simp only [Except.map, Except.error.injEq]

variable {statements : List (Statement S ε)} {ends : Ends ε} {c : Connection S} {s : S}

theorem transact_of_open (hopen : c.transaction ≠ none) :
    transact misuse statements ends c = (c, .error misuse) := by
  obtain ⟨t, ht⟩ := Option.ne_none_iff_exists'.mp hopen
  rw [transact, Connection.begin_of_open ht]

theorem transact_of_begun (hbegin : ends.begin = .done) :
    transact misuse statements ends ⟨s, none⟩ =
      finish misuse ends ((fate statements s).result s) := by
  rw [transact, hbegin, ← Connection.executeAll_eq]
  rfl

theorem transact_of_not_begun (hbegin : ends.begin ≠ .done) :
    ∃ error, transact misuse statements ends ⟨s, none⟩ = (⟨s, none⟩, .error error) := by
  cases h : ends.begin with
  | done => exact absurd h hbegin
  | failed error => exact ⟨error, by rw [transact, h]; rfl⟩
  | ended error => exact ⟨error, by rw [transact, h]; rfl⟩

/-- Where the last statement does its work, or its failure ends the transaction, a transaction that
is not committed leaves nothing behind. -/
theorem finish_cases (hleft : (fate statements s).leftOpen ends = false) :
    (∃ s', fate statements s = .through s' ∧
      finish misuse ends ((fate statements s).result s) = (⟨s', none⟩, .ok ())) ∨
    ∃ error, finish misuse ends ((fate statements s).result s) = (⟨s, none⟩, .error error) := by
  cases hfate : fate statements s with
  | ended error => exact .inr ⟨error, rfl⟩
  | through s' =>
    rw [hfate, Fate.leftOpen] at hleft
    cases hcommit : ends.commit with
    | done => exact .inl ⟨s', rfl, by rw [Fate.result, finish, hcommit]; rfl⟩
    | ended error => exact .inr ⟨error, by rw [Fate.result, finish, hcommit]; rfl⟩
    | failed error => rw [hcommit] at hleft; cases hleft
  | stays s' error =>
    rw [hfate, Fate.leftOpen] at hleft
    refine .inr ⟨error, ?_⟩
    rw [Fate.result, finish]
    cases hrollback : ends.rollback with
    | done => rfl
    | ended error => rfl
    | failed error => rw [hrollback] at hleft; cases hleft

theorem finish_of_leftOpen (hleft : (fate statements s).leftOpen ends = true) :
    ∃ s' error, finish misuse ends ((fate statements s).result s) = (⟨s, some s'⟩, .error error) := by
  cases hfate : fate statements s with
  | ended error => rw [hfate] at hleft; cases hleft
  | through s' =>
    rw [hfate, Fate.leftOpen] at hleft
    cases hcommit : ends.commit with
    | done => rw [hcommit] at hleft; cases hleft
    | ended error => rw [hcommit] at hleft; cases hleft
    | failed error =>
      exact ⟨s', error, by rw [Fate.result, finish, hcommit]; rfl⟩
  | stays s' error =>
    rw [hfate, Fate.leftOpen] at hleft
    cases hrollback : ends.rollback with
    | done => rw [hrollback] at hleft; cases hleft
    | ended error => rw [hrollback] at hleft; cases hleft
    | failed error' =>
      exact ⟨s', error, by rw [Fate.result, finish, hrollback]; rfl⟩

/-- What a transaction does that is not left open: it commits its statements, or it fails and leaves
nothing behind. -/
theorem transact_cases (hclosed : ¬LeavesOpen statements ends s) :
    (∃ s', fate statements s = .through s' ∧
      transact misuse statements ends ⟨s, none⟩ = (⟨s', none⟩, .ok ())) ∨
    ∃ error, transact misuse statements ends ⟨s, none⟩ = (⟨s, none⟩, .error error) := by
  by_cases hbegin : ends.begin = .done
  · rw [transact_of_begun misuse hbegin]
    exact finish_cases misuse (Bool.eq_false_iff.mpr fun hleft ↦ hclosed ⟨hbegin, hleft⟩)
  · exact .inr (transact_of_not_begun misuse hbegin)

theorem transact_of_leavesOpen (h : LeavesOpen statements ends s) :
    ∃ s' error, transact misuse statements ends ⟨s, none⟩ = (⟨s, some s'⟩, .error error) := by
  rw [transact_of_begun misuse h.1]
  exact finish_of_leftOpen misuse h.2

theorem transact_idle_iff : (transact misuse statements ends ⟨s, none⟩).1.transaction = none ↔
    ¬LeavesOpen statements ends s := by
  constructor
  · intro hidle hopen
    obtain ⟨s', error, h⟩ := transact_of_leavesOpen misuse hopen
    rw [h] at hidle
    cases hidle
  · intro hclosed
    obtain ⟨s', -, h⟩ | ⟨error, h⟩ := transact_cases misuse hclosed <;> rw [h]

/-- A transaction that fails is over, and has left nothing behind, exactly if it could begin and is
not left open. -/
theorem transact_clean_iff :
    Clean c.committed (transact misuse statements ends c) ↔
      c.transaction = none ∧ ¬LeavesOpen statements ends c.committed := by
  obtain ⟨committed, transaction⟩ := c
  cases transaction with
  | some t =>
    refine iff_of_false (fun hclean ↦ ?_) fun h ↦ absurd h.1 (Option.some_ne_none t)
    rw [transact_of_open misuse (Option.some_ne_none t)] at hclean
    cases hclean misuse rfl
  | none =>
    rw [eq_self_iff_true, true_and]
    constructor
    · intro hclean hopen
      obtain ⟨s', error, h⟩ := transact_of_leavesOpen misuse hopen
      rw [h] at hclean
      cases hclean error rfl
    · intro hclosed error herror
      obtain ⟨s', -, h⟩ | ⟨error', h⟩ := transact_cases misuse hclosed
      · rw [h] at herror
        cases herror
      · rw [h]

end Pattern

end QueQiao.Lib.Transactions
