import Mathlib.Data.Int.Notation
import Mathlib.Data.List.Basic
import Mathlib.Logic.Function.Basic
import QueQiao.Lib.Transition

namespace QueQiao.Audit

open Lib.Transition

variable {α : Type*}

/-- The rows of `records` and `payloads`, under the primary key they share. -/
structure Table (α : Type*) where
  rows : List (ℤ × α)
  nodup : (rows.map Prod.fst).Nodup

def Table.empty : Table α := ⟨[], List.nodup_nil⟩

def Table.items (table : Table α) : List α := table.rows.map Prod.snd

def Table.nextId (table : Table α) : ℤ := (table.rows.map Prod.fst).max?.getD 0 + 1

/-- The rows of a batch, with the ids from `startId` on. -/
def buildBatch : List α → ℤ → List (ℤ × α)
  | [], _ => []
  | item :: batch, startId => (startId, item) :: buildBatch batch (startId + 1)

@[simp] theorem map_snd_buildBatch (batch : List α) (startId : ℤ) :
    (buildBatch batch startId).map Prod.snd = batch := by
  induction batch generalizing startId with
  | nil => rfl
  | cons item batch ih => rw [buildBatch, List.map_cons, ih]

def Table.insertAll (table : Table α) (rows : List (ℤ × α)) : Option (Table α) :=
  if h : ((table.rows ++ rows).map Prod.fst).Nodup then some ⟨table.rows ++ rows, h⟩ else none

theorem Table.rows_of_insertAll {table table' : Table α} {rows : List (ℤ × α)}
    (h : table.insertAll rows = some table') : table'.rows = table.rows ++ rows := by
  unfold insertAll at h
  split at h
  · cases h
    rfl
  · cases h

structure WriterConfig where
  batchSize : ℕ
  queueCapacity : ℕ
  deriving DecidableEq, Repr

structure WriterStats where
  enqueued : ℕ := 0
  flushedRows : ℕ := 0
  batches : ℕ := 0
  dropped : ℕ := 0
  failedBatches : ℕ := 0
  deriving DecidableEq, Repr

/-- The commands of the control channel; a store is named by a number. -/
inductive WriterCmd
  | flush
  | seal
  | resume (store : ℕ)
  | reset
  | shutdown
  deriving DecidableEq, Repr

inductive Drain
  | flush
  | seal
  | shutdown
  deriving DecidableEq, Repr

/-- Where the writer task stands: in its `select!` (or, while sealed, waiting for a command), or
at an await inside one of the branches. A flush knows the drain it belongs to and whether its
batch was full. -/
inductive Pc
  | select
  | draining (drain : Drain)
  | flushing (caller : Option (Drain × Bool)) (attempt : ℕ)
  | checkpointing
  | opening (store : ℕ)
  | discarding
  | resetting
  | stopping
  | stopped
  deriving DecidableEq, Repr

/-- What became of the items, kept beside the state: those whose `enqueue` returned true or
false, those committed and to which store, those of failed batches, those a reset threw away or
erased from a store, and those left in hand when the task ended. -/
structure Ledger (α : Type*) where
  accepted : List α := []
  rejected : List α := []
  committed : List (ℕ × α) := []
  lost : List α := []
  discarded : List α := []
  erased : List (ℕ × α) := []
  abandoned : List α := []

def ofStore (store : ℕ) (entries : List (ℕ × α)) : List α :=
  (entries.filter (·.1 = store)).map Prod.snd

structure AuditWriter (α : Type*) where
  files : ℕ → Table α
  store : Option ℕ
  nextId : ℤ
  queue : List α
  -- senders that found the queue full
  waiting : List α
  batch : List α
  pc : Pc
  -- the answer to the last command
  reply : Option Bool
  stats : WriterStats
  ledger : Ledger α

def start (files : ℕ → Table α) (store : ℕ) : AuditWriter α where
  files := files
  store := some store
  nextId := (files store).nextId
  queue := []
  waiting := []
  batch := []
  pc := .select
  reply := none
  stats := {}
  ledger := {}

inductive Attempt
  | committed
  | retryable
  | failed
  deriving DecidableEq, Repr

/-- What can happen next: a sender's `try_send`, its wait for room or the end of that wait, and
the steps of the task, with the answers of the database. -/
inductive Event (α : Type*)
  | enqueue (item : α)
  | grant (i : ℕ)
  | expire (i : ℕ)
  | recv
  | timer
  | command (cmd : WriterCmd)
  | drain
  | attempt (outcome : Attempt)
  | checkpoint (ok : Bool)
  | opened (ok : Bool)
  | discard
  | reset (ok : Bool)
  | hangup
  | exit

namespace AuditWriter

def accept (w : AuditWriter α) (item : α) : AuditWriter α :=
  { w with
    queue := w.queue ++ [item]
    ledger := { w.ledger with accepted := w.ledger.accepted ++ [item] } }

def reject (w : AuditWriter α) (item : α) : AuditWriter α :=
  { w with
    stats := { w.stats with dropped := w.stats.dropped + 1 }
    ledger := { w.ledger with rejected := w.ledger.rejected ++ [item] } }

def enqueue (cfg : WriterConfig) (w : AuditWriter α) (item : α) : AuditWriter α :=
  let w := { w with stats := { w.stats with enqueued := w.stats.enqueued + 1 } }
  if w.pc = .stopped then w.reject item
  -- a sender that waits holds the slot it was given
  else if w.queue.length + w.waiting.length < cfg.queueCapacity then w.accept item
  else { w with waiting := w.waiting ++ [item] }

def answer (w : AuditWriter α) (ok : Bool) : AuditWriter α := { w with reply := some ok, pc := .select }

/-- What a command does with the result of `drain_and_flush`. -/
def drained (w : AuditWriter α) (ok : Bool) : Drain → AuditWriter α
  | .flush => w.answer ok
  | .seal => if ok then { w with pc := .checkpointing } else w.answer false
  | .shutdown => { w with reply := some ok, pc := .stopping }

def flushed (w : AuditWriter α) (ok : Bool) : Option (Drain × Bool) → AuditWriter α
  | none => { w with pc := .select }
  | some (drain, full) => if ok && full then { w with pc := .draining drain } else w.drained ok drain

def flushAndReset (w : AuditWriter α) (caller : Option (Drain × Bool)) : AuditWriter α :=
  if w.batch = [] then w.flushed true caller
  else if w.store.isNone then w.flushed false caller
  else { w with pc := .flushing caller 0 }

/-- One turn of the loops of `drain_and_flush`. -/
def drainStep (cfg : WriterConfig) (w : AuditWriter α) (drain : Drain) : AuditWriter α :=
  match w.queue with
  | item :: queue =>
    if w.batch.length < cfg.batchSize then { w with queue := queue, batch := w.batch ++ [item] }
    else if w.batch = [] then w.drained true drain
    else w.flushAndReset (some (drain, true))
  | [] =>
    if w.batch = [] then w.drained true drain
    else w.flushAndReset (some (drain, decide (cfg.batchSize ≤ w.batch.length)))

def commit (w : AuditWriter α) (store : ℕ) (table : Table α) : AuditWriter α :=
  { w with
    files := Function.update w.files store table
    nextId := w.nextId + w.batch.length
    batch := []
    stats := { w.stats with
      flushedRows := w.stats.flushedRows + w.batch.length
      batches := w.stats.batches + 1 }
    ledger := { w.ledger with
      committed := w.ledger.committed ++ w.batch.map fun item ↦ (store, item) } }

def dropBatch (w : AuditWriter α) : AuditWriter α :=
  { w with
    batch := []
    stats := { w.stats with
      failedBatches := w.stats.failedBatches + 1
      dropped := w.stats.dropped + w.batch.length }
    ledger := { w.ledger with lost := w.ledger.lost ++ w.batch } }

def retry (w : AuditWriter α) (caller : Option (Drain × Bool)) (attempt : ℕ) : AuditWriter α :=
  { w with
    pc := .flushing caller (attempt + 1)
    stats := { w.stats with failedBatches := w.stats.failedBatches + 1 } }

def flushWithRetry (w : AuditWriter α) (store : ℕ) (caller : Option (Drain × Bool)) (attempt : ℕ) :
    Attempt → AuditWriter α
  | .committed =>
    match (w.files store).insertAll (buildBatch w.batch w.nextId) with
    | some table => (w.commit store table).flushed true caller
    | none => w.dropBatch.flushed false caller
  | .retryable =>
    if attempt < 3 then w.retry caller attempt else w.dropBatch.flushed false caller
  | .failed => w.dropBatch.flushed false caller

def runCommand (w : AuditWriter α) : WriterCmd → AuditWriter α
  | .resume store => { w with pc := .opening store }
  | .flush => if w.store.isNone then w.answer false else { w with pc := .draining .flush }
  | .seal => if w.store.isNone then w.answer true else { w with pc := .draining .seal }
  | .reset => if w.store.isNone then w.answer false else { w with pc := .discarding }
  | .shutdown =>
    if w.store.isNone then { w with reply := some true, pc := .stopping }
    else { w with pc := .draining .shutdown }

def discardStep (w : AuditWriter α) : AuditWriter α :=
  match w.queue with
  | item :: queue =>
    { w with
      queue := queue
      ledger := { w.ledger with discarded := w.ledger.discarded ++ [item] } }
  | [] =>
    { w with
      batch := []
      pc := .resetting
      ledger := { w.ledger with discarded := w.ledger.discarded ++ w.batch } }

def erase (w : AuditWriter α) (store : ℕ) : AuditWriter α :=
  { w with
    files := Function.update w.files store .empty
    nextId := 1
    ledger := { w.ledger with
      erased := w.ledger.erased ++ (w.files store).items.map fun item ↦ (store, item) } }

/-- The task returns and drops its end of the queue with what is in it. -/
def exit (w : AuditWriter α) : AuditWriter α :=
  { w with
    queue := []
    batch := []
    pc := .stopped
    ledger := { w.ledger with abandoned := w.ledger.abandoned ++ w.queue ++ w.batch } }

end AuditWriter

open AuditWriter

def step (cfg : WriterConfig) (w : AuditWriter α) : Event α → Option (AuditWriter α)
  | .enqueue item => some (w.enqueue cfg item)
  | .grant i =>
    if w.pc ≠ .stopped ∧ i + w.queue.length < cfg.queueCapacity then
      (w.waiting[i]?).map ({ w with waiting := w.waiting.eraseIdx i }.accept ·)
    else none
  | .expire i => (w.waiting[i]?).map ({ w with waiting := w.waiting.eraseIdx i }.reject ·)
  | .recv =>
    match w.pc, w.store, w.queue with
    | .select, some _, item :: queue =>
      let w := { w with queue := queue, batch := w.batch ++ [item] }
      some (if cfg.batchSize ≤ w.batch.length then w.flushAndReset none else w)
    | _, _, _ => none
  | .timer => if w.pc = .select ∧ w.store.isSome then some (w.flushAndReset none) else none
  | .command cmd => if w.pc = .select then some (w.runCommand cmd) else none
  | .drain =>
    match w.pc with
    | .draining drain => some (w.drainStep cfg drain)
    | _ => none
  | .attempt outcome =>
    match w.pc, w.store with
    | .flushing caller attempt, some store => some (w.flushWithRetry store caller attempt outcome)
    | _, _ => none
  | .checkpoint ok =>
    if w.pc = .checkpointing then
      some ((if ok then { w with store := none } else w).answer ok)
    else none
  | .opened ok =>
    match w.pc with
    | .opening store =>
      some ((if ok then { w with store := some store, nextId := (w.files store).nextId } else w).answer
        ok)
    | _ => none
  | .discard => if w.pc = .discarding then some w.discardStep else none
  | .reset ok =>
    match w.pc, w.store with
    | .resetting, some store => some ((if ok then w.erase store else w).answer ok)
    | _, _ => none
  | .hangup => if w.pc = .select then some { w with pc := .stopping } else none
  | .exit => if w.pc = .stopping then some w.exit else none

inductive Stepped (cfg : WriterConfig) (w : AuditWriter α) : Event α → AuditWriter α → Prop
  | enqueue (item : α) : Stepped cfg w (.enqueue item) (w.enqueue cfg item)
  | grant {i : ℕ} {item : α} (hpc : w.pc ≠ .stopped)
      (hroom : i + w.queue.length < cfg.queueCapacity) (hitem : w.waiting[i]? = some item) :
      Stepped cfg w (.grant i) ({ w with waiting := w.waiting.eraseIdx i }.accept item)
  | expire {i : ℕ} {item : α} (hitem : w.waiting[i]? = some item) :
      Stepped cfg w (.expire i) ({ w with waiting := w.waiting.eraseIdx i }.reject item)
  | recv {store : ℕ} {item : α} {queue : List α} (hpc : w.pc = .select)
      (hstore : w.store = some store) (hqueue : w.queue = item :: queue) :
      Stepped cfg w .recv
        (if cfg.batchSize ≤ (w.batch ++ [item]).length then
          { w with queue := queue, batch := w.batch ++ [item] }.flushAndReset none
        else { w with queue := queue, batch := w.batch ++ [item] })
  | timer (hpc : w.pc = .select) (hstore : w.store.isSome) :
      Stepped cfg w .timer (w.flushAndReset none)
  | command (cmd : WriterCmd) (hpc : w.pc = .select) :
      Stepped cfg w (.command cmd) (w.runCommand cmd)
  | drain {drain : Drain} (hpc : w.pc = .draining drain) :
      Stepped cfg w .drain (w.drainStep cfg drain)
  | attempt {caller : Option (Drain × Bool)} {attempt store : ℕ} (outcome : Attempt)
      (hpc : w.pc = .flushing caller attempt) (hstore : w.store = some store) :
      Stepped cfg w (.attempt outcome) (w.flushWithRetry store caller attempt outcome)
  | checkpoint (ok : Bool) (hpc : w.pc = .checkpointing) :
      Stepped cfg w (.checkpoint ok) ((if ok then { w with store := none } else w).answer ok)
  | opened (ok : Bool) {store : ℕ} (hpc : w.pc = .opening store) :
      Stepped cfg w (.opened ok)
        ((if ok then { w with store := some store, nextId := (w.files store).nextId } else w).answer
          ok)
  | discard (hpc : w.pc = .discarding) : Stepped cfg w .discard w.discardStep
  | reset (ok : Bool) {store : ℕ} (hpc : w.pc = .resetting) (hstore : w.store = some store) :
      Stepped cfg w (.reset ok) ((if ok then w.erase store else w).answer ok)
  | hangup (hpc : w.pc = .select) : Stepped cfg w .hangup { w with pc := .stopping }
  | exit (hpc : w.pc = .stopping) : Stepped cfg w .exit w.exit

theorem Stepped.of_step {cfg : WriterConfig} {w w' : AuditWriter α} {e : Event α}
    (h : step cfg w e = some w') : Stepped cfg w e w' := by
  cases e with
  | enqueue item =>
    obtain rfl := Option.some.inj h
    exact .enqueue item
  | grant i =>
    simp only [step, Option.ite_none_right_eq_some, Option.map_eq_some_iff] at h
    obtain ⟨⟨hpc, hroom⟩, item, hitem, rfl⟩ := h
    exact .grant hpc hroom hitem
  | expire i =>
    simp only [step, Option.map_eq_some_iff] at h
    obtain ⟨item, hitem, rfl⟩ := h
    exact .expire hitem
  | recv =>
    simp only [step] at h
    split at h
    · rename_i hpc hstore hqueue
      obtain rfl := Option.some.inj h
      exact .recv hpc hstore hqueue
    · cases h
  | timer =>
    simp only [step, Option.ite_none_right_eq_some, Option.some.injEq] at h
    obtain ⟨⟨hpc, hstore⟩, rfl⟩ := h
    exact .timer hpc hstore
  | command cmd =>
    simp only [step, Option.ite_none_right_eq_some, Option.some.injEq] at h
    obtain ⟨hpc, rfl⟩ := h
    exact .command cmd hpc
  | drain =>
    simp only [step] at h
    split at h
    · rename_i hpc
      obtain rfl := Option.some.inj h
      exact .drain hpc
    · cases h
  | attempt outcome =>
    simp only [step] at h
    split at h
    · rename_i hpc hstore
      obtain rfl := Option.some.inj h
      exact .attempt outcome hpc hstore
    · cases h
  | checkpoint ok =>
    simp only [step, Option.ite_none_right_eq_some, Option.some.injEq] at h
    obtain ⟨hpc, rfl⟩ := h
    exact .checkpoint ok hpc
  | opened ok =>
    simp only [step] at h
    split at h
    · rename_i hpc
      obtain rfl := Option.some.inj h
      exact .opened ok hpc
    · cases h
  | discard =>
    simp only [step, Option.ite_none_right_eq_some, Option.some.injEq] at h
    obtain ⟨hpc, rfl⟩ := h
    exact .discard hpc
  | reset ok =>
    simp only [step] at h
    split at h
    · rename_i hpc hstore
      obtain rfl := Option.some.inj h
      exact .reset ok hpc hstore
    · cases h
  | hangup =>
    simp only [step, Option.ite_none_right_eq_some, Option.some.injEq] at h
    obtain ⟨hpc, rfl⟩ := h
    exact .hangup hpc
  | exit =>
    simp only [step, Option.ite_none_right_eq_some, Option.some.injEq] at h
    obtain ⟨hpc, rfl⟩ := h
    exact .exit hpc

end QueQiao.Audit
