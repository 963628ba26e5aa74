import QueQiao.Db.Writer

namespace QueQiao.Audit

variable {α : Type*}

/-- The part of the writer that is left when the position of the task, its answers, the waiting
senders and the other counters are forgotten. -/
structure Core (α : Type*) where
  files : ℕ → Table α
  store : Option ℕ
  nextId : ℤ
  queue : List α
  batch : List α
  dropped : ℕ
  ledger : Ledger α

def AuditWriter.core (w : AuditWriter α) : Core α :=
  ⟨w.files, w.store, w.nextId, w.queue, w.batch, w.stats.dropped, w.ledger⟩

section Control

variable {w : AuditWriter α}

/-! The answer to a command and the way to it move only the position of the task and its reply. -/

theorem exists_drained_eq (ok : Bool) (drain : Drain) :
    ∃ reply pc, w.drained ok drain = { w with reply := reply, pc := pc } := by
  cases drain with
  | flush => exact ⟨some ok, .select, rfl⟩
  | «seal» =>
    cases ok with
    | true => exact ⟨w.reply, .checkpointing, rfl⟩
    | false => exact ⟨some false, .select, rfl⟩
  | shutdown => exact ⟨some ok, .stopping, rfl⟩

theorem exists_flushed_eq (ok : Bool) (caller : Option (Drain × Bool)) :
    ∃ reply pc, w.flushed ok caller = { w with reply := reply, pc := pc } := by
  cases caller with
  | none => exact ⟨w.reply, .select, rfl⟩
  | some c =>
    simp only [AuditWriter.flushed]
    split
    · exact ⟨w.reply, .draining c.1, rfl⟩
    · exact exists_drained_eq ok c.1

theorem exists_flushAndReset_eq (caller : Option (Drain × Bool)) :
    ∃ reply pc, w.flushAndReset caller = { w with reply := reply, pc := pc } := by
  unfold AuditWriter.flushAndReset
  split
  · exact exists_flushed_eq _ _
  · split
    · exact exists_flushed_eq _ _
    · exact ⟨w.reply, .flushing caller 0, rfl⟩

theorem exists_runCommand_eq (cmd : WriterCmd) :
    ∃ reply pc, w.runCommand cmd = { w with reply := reply, pc := pc } := by
  cases cmd <;> simp only [AuditWriter.runCommand]
  case resume => exact ⟨_, _, rfl⟩
  all_goals split <;> exact ⟨_, _, rfl⟩

@[simp] theorem core_answer (ok : Bool) : (w.answer ok).core = w.core := rfl

@[simp] theorem core_drained (ok : Bool) (drain : Drain) : (w.drained ok drain).core = w.core := by
  obtain ⟨_, _, h⟩ := exists_drained_eq (w := w) ok drain
  rw [h]
  rfl

@[simp] theorem core_flushed (ok : Bool) (caller : Option (Drain × Bool)) :
    (w.flushed ok caller).core = w.core := by
  obtain ⟨_, _, h⟩ := exists_flushed_eq (w := w) ok caller
  rw [h]
  rfl

@[simp] theorem core_flushAndReset (caller : Option (Drain × Bool)) :
    (w.flushAndReset caller).core = w.core := by
  obtain ⟨_, _, h⟩ := exists_flushAndReset_eq (w := w) caller
  rw [h]
  rfl

@[simp] theorem core_runCommand (cmd : WriterCmd) : (w.runCommand cmd).core = w.core := by
  obtain ⟨_, _, h⟩ := exists_runCommand_eq (w := w) cmd
  rw [h]
  rfl

end Control

def AuditWriter.detach (w : AuditWriter α) : AuditWriter α := { w with store := none }

def AuditWriter.attach (w : AuditWriter α) (store : ℕ) : AuditWriter α :=
  { w with store := some store, nextId := (w.files store).nextId }

inductive Effect (w : AuditWriter α) : Event α → Core α → Prop
  | none (e : Event α) : Effect w e w.core
  | accept (e : Event α) (item : α) : Effect w e (w.accept item).core
  | reject (e : Event α) (item : α) : Effect w e (w.reject item).core
  | receive (e : Event α) {item : α} {queue : List α} (hq : w.queue = item :: queue) :
      Effect w e ({ w with queue := queue, batch := w.batch ++ [item] }).core
  | commit {store : ℕ} {table : Table α} (hstore : w.store = some store)
      (ht : (w.files store).insertAll (buildBatch w.batch w.nextId) = some table) :
      Effect w (.attempt .committed) (w.commit store table).core
  | dropBatch (outcome : Attempt) : Effect w (.attempt outcome) w.dropBatch.core
  | detach : Effect w (.checkpoint true) w.detach.core
  | attach (store : ℕ) : Effect w (.opened true) (w.attach store).core
  | discard (hpc : w.pc = .discarding) : Effect w .discard w.discardStep.core
  | erase {store : ℕ} (hstore : w.store = some store) (hpc : w.pc = .resetting) :
      Effect w (.reset true) (w.erase store).core
  | exit : Effect w .exit w.exit.core

variable {w w' : AuditWriter α}

theorem Effect.of_flushWithRetry {store : ℕ} (hstore : w.store = some store)
    (caller : Option (Drain × Bool)) (attempt : ℕ) (outcome : Attempt) :
    Effect w (.attempt outcome) (w.flushWithRetry store caller attempt outcome).core := by
  cases outcome with
  | committed =>
    simp only [AuditWriter.flushWithRetry]
    split
    · rename_i table ht
      rw [core_flushed]
      exact .commit hstore ht
    · rw [core_flushed]
      exact .dropBatch _
  | retryable =>
    simp only [AuditWriter.flushWithRetry]
    split
    · exact .none _
    · rw [core_flushed]
      exact .dropBatch _
  | failed =>
    rw [AuditWriter.flushWithRetry, core_flushed]
    exact .dropBatch _

theorem Effect.of_drainStep (e : Event α) (cfg : WriterConfig) (drain : Drain) :
    Effect w e (w.drainStep cfg drain).core := by
  unfold AuditWriter.drainStep
  split
  · rename_i item queue hq
    split_ifs
    · exact .receive e hq
    · rw [core_drained]
      exact .none e
    · rw [core_flushAndReset]
      exact .none e
  · split_ifs
    · rw [core_drained]
      exact .none e
    · rw [core_flushAndReset]
      exact .none e

theorem Effect.of_step {cfg : WriterConfig} {e : Event α} (hs : step cfg w e = some w') :
    Effect w e w'.core := by
  cases Stepped.of_step hs with
  | enqueue item =>
    simp only [AuditWriter.enqueue]
    split_ifs
    · exact .reject _ item
    · exact .accept _ item
    · exact .none _
  | @grant i item => exact .accept _ item
  | @expire i item => exact .reject _ item
  | recv _ _ hqueue =>
    split_ifs
    · rw [core_flushAndReset]
      exact .receive _ hqueue
    · exact .receive _ hqueue
  | timer =>
    rw [core_flushAndReset]
    exact .none _
  | command cmd =>
    rw [core_runCommand]
    exact .none _
  | drain => exact .of_drainStep _ _ _
  | attempt outcome _ hstore => exact .of_flushWithRetry hstore _ _ _
  | checkpoint ok =>
    rw [core_answer]
    cases ok with
    | true => exact .detach
    | false => exact .none _
  | @opened ok store =>
    rw [core_answer]
    cases ok with
    | true => exact .attach store
    | false => exact .none _
  | discard hpc => exact .discard hpc
  | reset ok hpc hstore =>
    rw [core_answer]
    cases ok with
    | true => exact .erase hstore hpc
    | false => exact .none _
  | hangup => exact .none _
  | exit => exact .exit

end QueQiao.Audit
