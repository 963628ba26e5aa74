import QueQiao.Db.WriterIds
import QueQiao.Lib.Transactions

namespace QueQiao.Audit

open Lib.Transactions Lib.Transition

inductive DriverError
  | busy
  | busySnapshot
  | interrupt
  | ioError
  | constraint
  | other
  deriving DecidableEq

inductive DbError
  | driver (error : DriverError)
  | shape (msg : String)
  | poolTimeout
  | closed
  deriving DecidableEq

def DbError.isRetryable : DbError → Bool
  | .driver .busy | .driver .busySnapshot | .driver .interrupt | .driver .ioError | .poolTimeout =>
    true
  | _ => false

structure Tables where
  records : Table AuditItem
  payloads : Table Row

def Tables.empty : Tables := ⟨.empty, .empty⟩

section Statements

def insertRecords (rows : List (ℤ × AuditItem)) (tables : Tables) : Except DbError Tables :=
  match tables.records.insertAll rows with
  | some records => .ok { tables with records := records }
  | none => .error (.driver .constraint)

def insertPayloads (rows : List (ℤ × Row)) (tables : Tables) : Except DbError Tables :=
  match tables.payloads.insertAll rows with
  | some payloads => .ok { tables with payloads := payloads }
  | none => .error (.driver .constraint)

def deletePayloads (tables : Tables) : Except DbError Tables := .ok { tables with payloads := .empty }
def deleteRecords (tables : Tables) : Except DbError Tables := .ok { tables with records := .empty }

end Statements

structure Answers extends Ends DbError where
  first : Answer DbError
  second : Answer DbError

def batchStatements (batch : List AuditItem) (startId : ℤ) (answers : Answers) :
    List (Statement Tables DbError) :=
  [⟨insertRecords (buildBatch batch startId), answers.first⟩,
    ⟨insertPayloads (Stored.buildPayloads batch startId), answers.second⟩]

def resetStatements (answers : Answers) : List (Statement Tables DbError) :=
  [⟨deletePayloads, answers.first⟩, ⟨deleteRecords, answers.second⟩]

-- the error of `BEGIN` in a transaction
variable (misuse : DbError)

def executeBatch (batch : List AuditItem) (startId : ℤ) (answers : Answers)
    (conn : Connection Tables) : Connection Tables × Except DbError Unit :=
  transact misuse (batchStatements batch startId answers) answers.toEnds conn

/-- `count` is the error of the query that counts the records, through another connection. -/
def resetStore (count : Option DbError) (answers : Answers) (conn : Connection Tables) :
    Connection Tables × Except DbError ℕ :=
  match count with
  | some error => (conn, .error error)
  | none =>
    let before := conn.committed.records.rows.length
    let result := transact misuse (resetStatements answers) answers.toEnds conn
    (result.1, result.2.map fun _ ↦ before)

/-- The attempts at a batch, of which `left` may follow the next one. -/
def flushWithRetry (batch : List AuditItem) (startId : ℤ) (attempts : ℕ → Answers) :
    ℕ → Connection Tables → Connection Tables × Except DbError Unit
  | 0, conn => executeBatch misuse batch startId (attempts 0) conn
  | left + 1, conn =>
    match executeBatch misuse batch startId (attempts (left + 1)) conn with
    | (conn, .ok ()) => (conn, .ok ())
    | (conn, .error error) =>
      if error.isRetryable then flushWithRetry batch startId attempts left conn
      else (conn, .error error)

variable {batch : List AuditItem} {startId : ℤ} {answers : Answers} {attempts : ℕ → Answers}
  {conn : Connection Tables} {s s' : Tables}

theorem insertRecords_eq_ok {rows : List (ℤ × AuditItem)} (h : insertRecords rows s = .ok s') :
    s.records.insertAll rows = some s'.records ∧ s'.payloads = s.payloads := by
  unfold insertRecords at h
  split at h
  · obtain rfl := Except.ok.inj h
    exact ⟨‹_›, rfl⟩
  · cases h

theorem insertPayloads_eq_ok {rows : List (ℤ × Row)} (h : insertPayloads rows s = .ok s') :
    s.payloads.insertAll rows = some s'.payloads ∧ s'.records = s.records := by
  unfold insertPayloads at h
  split at h
  · obtain rfl := Except.ok.inj h
    exact ⟨‹_›, rfl⟩
  · cases h

theorem executeBatch_of_through
    (h : fate (batchStatements batch startId answers) s = .through s') :
    Stored.executeBatch s.records s.payloads batch startId = some (s'.records, s'.payloads) := by
  obtain ⟨s₁, hfirst, h⟩ := fate_cons_through h
  obtain ⟨s₂, hsecond, h⟩ := fate_cons_through h
  obtain rfl := Fate.through.inj h
  obtain ⟨hrecords, hkept⟩ := insertRecords_eq_ok hfirst
  obtain ⟨hpayloads, hkept'⟩ := insertPayloads_eq_ok hsecond
  rw [hkept] at hpayloads
  rw [Stored.executeBatch, hrecords, hkept']
  exact congrArg (fun p ↦ p.bind fun p ↦ some (s₁.records, p)) hpayloads

theorem executeBatch_cases
    (hclosed : ¬LeavesOpen (batchStatements batch startId answers) answers.toEnds s) :
    (∃ records payloads, Stored.executeBatch s.records s.payloads batch startId =
        some (records, payloads) ∧
      executeBatch misuse batch startId answers ⟨s, none⟩ = (⟨⟨records, payloads⟩, none⟩, .ok ())) ∨
    ∃ error, executeBatch misuse batch startId answers ⟨s, none⟩ = (⟨s, none⟩, .error error) := by
  obtain ⟨s', hfate, h⟩ | h := transact_cases misuse hclosed
  · exact .inl ⟨s'.records, s'.payloads, executeBatch_of_through hfate, h⟩
  · exact .inr h

theorem flushWithRetry_cases {left : ℕ} (hclosed : ∀ i ≤ left,
      ¬LeavesOpen (batchStatements batch startId (attempts i)) (attempts i).toEnds s) :
    (∃ records payloads, Stored.executeBatch s.records s.payloads batch startId =
        some (records, payloads) ∧
      flushWithRetry misuse batch startId attempts left ⟨s, none⟩ =
        (⟨⟨records, payloads⟩, none⟩, .ok ())) ∨
    ∃ error, flushWithRetry misuse batch startId attempts left ⟨s, none⟩ =
      (⟨s, none⟩, .error error) := by
  induction left with
  | zero => exact executeBatch_cases misuse (hclosed 0 (Nat.le_refl 0))
  | succ left ih =>
    obtain ⟨records, payloads, hexecute, h⟩ | ⟨error, h⟩ :=
      executeBatch_cases misuse (hclosed (left + 1) (Nat.le_refl _))
    · exact .inl ⟨records, payloads, hexecute, by rw [flushWithRetry, h]⟩
    · rw [flushWithRetry, h]
      simp only
      split
      · exact ih fun i hi ↦ hclosed i (Nat.le_succ_of_le hi)
      · exact .inr ⟨error, rfl⟩

theorem flushWithRetry_of_open (hopen : conn.transaction ≠ none) (left : ℕ) :
    flushWithRetry misuse batch startId attempts left conn = (conn, .error misuse) := by
  induction left with
  | zero => exact transact_of_open misuse hopen
  | succ left ih =>
    rw [flushWithRetry, executeBatch, transact_of_open misuse hopen]
    simp only
    split
    · exact ih
    · rfl

theorem resetStore_clean_iff (count : Option DbError) :
    Clean conn.committed (resetStore misuse count answers conn) ↔
      conn.transaction = none ∧
        (count = none → ¬LeavesOpen (resetStatements answers) answers.toEnds conn.committed) := by
  cases count with
  | some error =>
    obtain ⟨committed, transaction⟩ := conn
    constructor
    · intro hclean
      exact ⟨congrArg Connection.transaction (hclean error rfl),
        fun h ↦ absurd h (Option.some_ne_none error)⟩
    · intro h error' _
      exact congrArg (Connection.mk committed) h.1
  | none =>
    rw [resetStore, clean_map_iff, transact_clean_iff, eq_self_iff_true, true_imp_iff]

/-- A call that fails has closed its transaction and kept nothing of it, so that the next can begin,
exactly if none was open, and the commit of statements that ran, or the rollback of statements that
did not, does not fail in a way that keeps the transaction open. -/
theorem calls_clean_iff :
    (Clean conn.committed (executeBatch misuse batch startId answers conn) ↔
      conn.transaction = none ∧
        ¬LeavesOpen (batchStatements batch startId answers) answers.toEnds conn.committed) ∧
    ∀ count, Clean conn.committed (resetStore misuse count answers conn) ↔
      conn.transaction = none ∧
        (count = none → ¬LeavesOpen (resetStatements answers) answers.toEnds conn.committed) :=
  ⟨transact_clean_iff misuse, fun count ↦ resetStore_clean_iff misuse count⟩

def allDone : Answers := ⟨⟨.done, .done, .done⟩, .done, .done⟩

def commitBusy : Answers := { allDone with commit := .failed (.driver .busy) }

/-- The commit of a batch finds the database busy. Its transaction stays open, and the next batch
fails, whatever the database answers. -/
theorem busy_commit_left_open :
    (executeBatch (.driver .other) [Stored.emptyItem] 1 commitBusy ⟨.empty, none⟩).2 =
        .error (.driver .busy) ∧
      (executeBatch (.driver .other) [Stored.emptyItem] 1 commitBusy ⟨.empty, none⟩).1.transaction ≠ none ∧
      ∀ batch startId answers, (executeBatch (.driver .other) batch startId answers
        (executeBatch (.driver .other) [Stored.emptyItem] 1 commitBusy ⟨.empty, none⟩).1).2 =
          .error (.driver .other) :=
  ⟨rfl, Option.some_ne_none _, fun _ _ _ ↦ rfl⟩

inductive Call
  | batch (batch : List AuditItem) (startId : ℤ) (answers : Answers)
  | reset (count : Option DbError) (answers : Answers)

def Call.next (conn : Connection Tables) : Call → Connection Tables
  | .batch batch startId answers => (executeBatch misuse batch startId answers conn).1
  | .reset count answers => (resetStore misuse count answers conn).1

def Call.step (conn : Connection Tables) (call : Call) : Option (Connection Tables) :=
  some (call.next misuse conn)

def Call.LeavesOpen (s : Tables) : Call → Prop
  | .batch batch startId answers =>
    Lib.Transactions.LeavesOpen (batchStatements batch startId answers) answers.toEnds s
  | .reset count answers =>
    count = none ∧ Lib.Transactions.LeavesOpen (resetStatements answers) answers.toEnds s

theorem Call.next_idle_iff (call : Call) (hidle : conn.transaction = none) :
    (call.next misuse conn).transaction = none ↔ ¬call.LeavesOpen conn.committed := by
  obtain ⟨committed, transaction⟩ := conn
  obtain rfl : transaction = none := hidle
  cases call with
  | batch batch startId answers => exact transact_idle_iff misuse
  | reset count answers =>
    cases count with
    | some error => exact iff_of_true rfl fun h ↦ absurd h.1 (Option.some_ne_none error)
    | none =>
      refine (transact_idle_iff misuse).trans (not_congr ?_)
      exact (and_iff_right rfl).symm

theorem Call.next_of_open (call : Call) (hopen : conn.transaction ≠ none) :
    call.next misuse conn = conn := by
  cases call with
  | batch batch startId answers => exact congrArg Prod.fst (transact_of_open misuse hopen)
  | reset count answers =>
    cases count with
    | some error => rfl
    | none => exact congrArg Prod.fst (transact_of_open misuse hopen)

/-- The connection is outside a transaction between the calls of a run exactly as long as none of
them leaves its own open. -/
theorem calls_idle_iff {tr : List (Connection Tables × Call)}
    (h : Path (Call.step misuse) ⟨s, none⟩ tr conn) :
    Always (fun conn : Connection Tables ↦ conn.transaction = none) tr conn ↔
      ∀ p ∈ tr, ¬p.2.LeavesOpen p.1.committed := by
  let closes (conn : Connection Tables) (call : Call) : Prop := ¬call.LeavesOpen conn.committed
  have hiff : Always (fun conn : Connection Tables ↦ conn.transaction = none) tr conn ↔
      ∀ p ∈ tr, closes p.1 p.2 := by
    refine h.always_iff rfl fun before call after hidle hstep ↦ ?_
    obtain rfl := Option.some.inj hstep
    exact call.next_idle_iff misuse hidle
  exact hiff

theorem calls_of_open {conn₀ : Connection Tables} {tr : List (Connection Tables × Call)}
    (h : Path (Call.step misuse) conn₀ tr conn) (hopen : conn₀.transaction ≠ none) :
    conn = conn₀ := by
  refine h.invariant_all (P := fun conn ↦ conn = conn₀) rfl fun before call after hbefore hstep ↦ ?_
  obtain rfl := Option.some.inj hstep
  rw [hbefore]
  exact call.next_of_open misuse hopen

end QueQiao.Audit
