import QueQiao.Db.Conservation

namespace QueQiao.Audit

open Lib.Transition AuditWriter

variable {α : Type*} {cfg : WriterConfig} {w w' : AuditWriter α} {drain : Drain}
  {caller : Option (Drain × Bool)}

def WriterConfig.cap (cfg : WriterConfig) : ℕ := max cfg.batchSize 1

def Pc.writes : Pc → Bool
  | .draining _ | .flushing _ _ => true
  | _ => false

structure Held (cfg : WriterConfig) (w : AuditWriter α) : Prop where
  size : w.batch.length ≤ cfg.cap
  store : w.pc.writes = true → w.store.isSome
  flushing : ∀ caller attempt, w.pc = .flushing caller attempt → w.batch ≠ []
  room : w.pc.writes = false → w.batch.length < cfg.cap

theorem cap_pos (cfg : WriterConfig) : 0 < cfg.cap :=
  Nat.lt_of_lt_of_le Nat.one_pos (Nat.le_max_right _ _)

theorem held_of_room (hpc : w.pc.writes = false) (hroom : w.batch.length < cfg.cap) :
    Held cfg w where
  size := Nat.le_of_lt hroom
  store h := absurd (h.symm.trans hpc) Bool.noConfusion
  flushing caller attempt h := by
    rw [h] at hpc
    cases hpc
  room _ := hroom

theorem held_draining {d : Drain} (hpc : w.pc = .draining d) (hstore : w.store.isSome)
    (hsize : w.batch.length ≤ cfg.cap) : Held cfg w where
  size := hsize
  store _ := hstore
  flushing caller attempt h := by
    rw [hpc] at h
    cases h
  room h := by
    rw [hpc] at h
    cases h

theorem held_drained (hroom : w.batch.length < cfg.cap) (ok : Bool) (drain : Drain) :
    Held cfg (w.drained ok drain) := by
  cases drain with
  | flush => exact held_of_room rfl hroom
  | «seal» => cases ok <;> exact held_of_room rfl hroom
  | shutdown => exact held_of_room rfl hroom

theorem held_flushed (hstore : w.store.isSome) (hbatch : w.batch = []) (ok : Bool)
    (caller : Option (Drain × Bool)) : Held cfg (w.flushed ok caller) := by
  have hroom : w.batch.length < cfg.cap := by
    rw [hbatch]
    exact cap_pos cfg
  cases caller with
  | none => exact held_of_room rfl hroom
  | some c =>
    rw [flushed]
    split
    · exact held_draining (d := c.1) rfl hstore (Nat.le_of_lt hroom)
    · exact held_drained hroom ok c.1

theorem held_flushAndReset (hstore : w.store.isSome) (hsize : w.batch.length ≤ cfg.cap)
    (caller : Option (Drain × Bool)) : Held cfg (w.flushAndReset caller) := by
  rw [flushAndReset]
  split
  · rename_i hbatch
    exact held_flushed hstore hbatch true caller
  · rename_i hbatch
    rw [if_neg (by rw [Option.isNone_iff_eq_none]; exact Option.isSome_iff_ne_none.mp hstore)]
    exact ⟨hsize, fun _ ↦ hstore, fun _ _ _ ↦ hbatch, fun h ↦ by cases h⟩

theorem held_drainStep (h : Held cfg w) (hpc : w.pc = .draining drain) :
    Held cfg (w.drainStep cfg drain) := by
  have hstore : w.store.isSome := h.store (by rw [hpc]; rfl)
  have hempty (hbatch : w.batch = []) : w.batch.length < cfg.cap := by
    rw [hbatch]
    exact cap_pos cfg
  rw [drainStep]
  split
  · split_ifs with hroom hbatch
    · refine held_draining (d := drain) hpc hstore ?_
      rw [List.length_append, List.length_singleton]
      exact Nat.le_trans hroom (Nat.le_max_left _ _)
    · exact held_drained (hempty hbatch) true drain
    · exact held_flushAndReset hstore h.size _
  · split_ifs with hbatch
    · exact held_drained (hempty hbatch) true drain
    · exact held_flushAndReset hstore h.size _

theorem held_runCommand (h : Held cfg w) (hpc : w.pc = .select) (cmd : WriterCmd) :
    Held cfg (w.runCommand cmd) := by
  have hroom : w.batch.length < cfg.cap := h.room (by rw [hpc]; rfl)
  have hdraining (hstore : ¬w.store.isNone = true) (drain : Drain) :
      Held cfg { w with pc := .draining drain } :=
    held_draining (d := drain) rfl (by simpa [Option.isSome_iff_ne_none] using hstore) h.size
  cases cmd with
  | resume store => exact held_of_room rfl hroom
  | flush =>
    rw [runCommand]
    split_ifs with hstore
    · exact held_of_room rfl hroom
    · exact hdraining hstore .flush
  | «seal» =>
    rw [runCommand]
    split_ifs with hstore
    · exact held_of_room rfl hroom
    · exact hdraining hstore .seal
  | reset =>
    rw [runCommand]
    split_ifs <;> exact held_of_room rfl hroom
  | shutdown =>
    rw [runCommand]
    split_ifs with hstore
    · exact held_of_room rfl hroom
    · exact hdraining hstore .shutdown

theorem held_flushWithRetry {store attempt : ℕ} (h : Held cfg w)
    (hpc : w.pc = .flushing caller attempt)
    (outcome : Attempt) : Held cfg (w.flushWithRetry store caller attempt outcome) := by
  have hstore : w.store.isSome := h.store (by rw [hpc]; rfl)
  have hdropped : Held cfg (w.dropBatch.flushed false caller) :=
      held_flushed (w := w.dropBatch) hstore rfl false caller
  cases outcome with
  | committed =>
    rw [flushWithRetry]
    split
    · rename_i table _
      exact held_flushed (w := w.commit store table) hstore rfl true caller
    · exact hdropped
  | retryable =>
    rw [flushWithRetry]
    split
    · exact ⟨h.size, fun _ ↦ hstore, fun _ _ _ ↦ h.flushing caller attempt hpc, fun h ↦ by cases h⟩
    · exact hdropped
  | failed => exact hdropped

theorem Held.congr {v : AuditWriter α} (h : Held cfg w) (hpc : v.pc = w.pc)
    (hstore : v.store = w.store)
    (hbatch : v.batch = w.batch) : Held cfg v where
  size := hbatch ▸ h.size
  store hwrites := hstore ▸ h.store (hpc ▸ hwrites)
  flushing caller attempt hflushing := hbatch ▸ h.flushing caller attempt (hpc ▸ hflushing)
  room hwrites := hbatch ▸ h.room (hpc ▸ hwrites)

theorem held_step {e : Event α} (h : Held cfg w) (hs : step cfg w e = some w') : Held cfg w' := by
  have hroom (hpc : w.pc.writes = false) : w.batch.length < cfg.cap := h.room hpc
  cases Stepped.of_step hs with
  | enqueue item =>
    rw [enqueue]
    split_ifs <;> exact h.congr rfl rfl rfl
  | grant => exact h.congr rfl rfl rfl
  | expire => exact h.congr rfl rfl rfl
  | @recv store item queue hpc hstore hqueue =>
    have hlen : (w.batch ++ [item]).length = w.batch.length + 1 := by
      rw [List.length_append, List.length_singleton]
    have hlt := hroom (by rw [hpc]; rfl)
    split_ifs with hfull
    · refine held_flushAndReset (by rw [hstore]; rfl) ?_ none
      rw [hlen]
      exact hlt
    · exact held_of_room (by rw [hpc]; rfl)
        (Nat.lt_of_lt_of_le (Nat.lt_of_not_le hfull) (Nat.le_max_left _ _))
  | timer hpc hstore => exact held_flushAndReset hstore h.size none
  | command cmd hpc => exact held_runCommand h hpc cmd
  | drain hpc => exact held_drainStep h hpc
  | attempt outcome hpc hstore => exact held_flushWithRetry h hpc outcome
  | checkpoint ok hpc =>
    have hlt := hroom (by rw [hpc]; rfl)
    cases ok <;> exact held_of_room rfl hlt
  | opened ok hpc =>
    have hlt := hroom (by rw [hpc]; rfl)
    cases ok <;> exact held_of_room rfl hlt
  | discard hpc =>
    have hlt := hroom (by rw [hpc]; rfl)
    rw [discardStep]
    split
    · exact held_of_room (by rw [hpc]; rfl) hlt
    · exact held_of_room rfl (cap_pos cfg)
  | reset ok hpc hstore =>
    have hlt := hroom (by rw [hpc]; rfl)
    cases ok <;> exact held_of_room rfl hlt
  | hangup hpc => exact held_of_room rfl (hroom (by rw [hpc]; rfl))
  | exit hpc => exact held_of_room rfl (cap_pos cfg)

structure Counted (cfg : WriterConfig) (w : AuditWriter α) : Prop where
  enqueued : w.stats.enqueued = w.stats.flushedRows + w.stats.dropped + w.waiting.length +
    w.queue.length + w.batch.length + w.ledger.discarded.length + w.ledger.abandoned.length
  flushed : w.stats.flushedRows = w.ledger.committed.length
  dropped : w.stats.dropped = w.ledger.rejected.length + w.ledger.lost.length
  batches : w.stats.batches ≤ w.stats.flushedRows
  rows : w.stats.flushedRows ≤ w.stats.batches * cfg.cap
  lost : w.ledger.lost.length ≤ w.stats.failedBatches * cfg.cap

theorem Counted.control (h : Counted cfg w) {v : AuditWriter α}
    (hv : ∃ reply pc, v = { w with reply := reply, pc := pc }) : Counted cfg v := by
  obtain ⟨reply, pc, rfl⟩ := hv
  exact ⟨h.enqueued, h.flushed, h.dropped, h.batches, h.rows, h.lost⟩

theorem counted_receive {item : α} {queue : List α} (h : Counted cfg w)
    (hqueue : w.queue = item :: queue) :
    Counted cfg { w with queue := queue, batch := w.batch ++ [item] } where
  enqueued := by
    have henqueued := h.enqueued
    rw [hqueue, List.length_cons] at henqueued
    simp only [List.length_append, List.length_singleton]
    omega
  flushed := h.flushed
  dropped := h.dropped
  batches := h.batches
  rows := h.rows
  lost := h.lost

theorem counted_commit {store : ℕ} {table : Table α} (h : Counted cfg w)
    (hsize : w.batch.length ≤ cfg.cap)
    (hbatch : w.batch ≠ []) : Counted cfg (w.commit store table) where
  enqueued := by
    have henqueued := h.enqueued
    simp only [commit, List.length_nil]
    omega
  flushed := by
    have hflushed := h.flushed
    simp only [commit, List.length_append, List.length_map]
    omega
  dropped := h.dropped
  batches := by
    have hbatches := h.batches
    have hpos := List.length_pos_iff.mpr hbatch
    simp only [commit]
    omega
  rows := by
    have hrows := h.rows
    simp only [commit, Nat.add_mul, Nat.one_mul]
    omega
  lost := h.lost

theorem counted_dropBatch (h : Counted cfg w) (hsize : w.batch.length ≤ cfg.cap) :
    Counted cfg w.dropBatch where
  enqueued := by
    have henqueued := h.enqueued
    simp only [dropBatch, List.length_nil]
    omega
  flushed := h.flushed
  dropped := by
    have hdropped := h.dropped
    simp only [dropBatch, List.length_append]
    omega
  batches := h.batches
  rows := h.rows
  lost := by
    have hlost := h.lost
    simp only [dropBatch, List.length_append, Nat.add_mul, Nat.one_mul]
    omega

theorem counted_enqueue (h : Counted cfg w) (item : α) : Counted cfg (w.enqueue cfg item) := by
  have henqueued := h.enqueued
  have hdropped := h.dropped
  rw [enqueue]
  split_ifs
  · refine ⟨?_, h.flushed, ?_, h.batches, h.rows, h.lost⟩
    · simp only [reject]
      omega
    · simp only [reject, List.length_append, List.length_singleton]
      omega
  · refine ⟨?_, h.flushed, hdropped, h.batches, h.rows, h.lost⟩
    simp only [accept, List.length_append, List.length_singleton]
    omega
  · refine ⟨?_, h.flushed, hdropped, h.batches, h.rows, h.lost⟩
    simp only [List.length_append, List.length_singleton]
    omega

theorem counted_waited {i : ℕ} {item : α} (h : Counted cfg w) (hitem : w.waiting[i]? = some item) :
    Counted cfg ({ w with waiting := w.waiting.eraseIdx i }.accept item) ∧
      Counted cfg ({ w with waiting := w.waiting.eraseIdx i }.reject item) := by
  have henqueued := h.enqueued
  have hdropped := h.dropped
  obtain ⟨hi, -⟩ := List.getElem?_eq_some_iff.mp hitem
  have hlen := List.length_eraseIdx_add_one hi
  constructor
  · refine ⟨?_, h.flushed, hdropped, h.batches, h.rows, h.lost⟩
    simp only [accept, List.length_append, List.length_singleton]
    omega
  · refine ⟨?_, h.flushed, ?_, h.batches, h.rows, h.lost⟩
    · simp only [reject]
      omega
    · simp only [reject, List.length_append, List.length_singleton]
      omega

theorem counted_discardStep (h : Counted cfg w) : Counted cfg w.discardStep := by
  have henqueued := h.enqueued
  rw [discardStep]
  split
  · rename_i item queue hqueue
    refine ⟨?_, h.flushed, h.dropped, h.batches, h.rows, h.lost⟩
    rw [hqueue, List.length_cons] at henqueued
    simp only [List.length_append, List.length_singleton]
    omega
  · refine ⟨?_, h.flushed, h.dropped, h.batches, h.rows, h.lost⟩
    simp only [List.length_append, List.length_nil]
    omega

theorem counted_exit (h : Counted cfg w) : Counted cfg w.exit := by
  have henqueued := h.enqueued
  refine ⟨?_, h.flushed, h.dropped, h.batches, h.rows, h.lost⟩
  simp only [exit, List.length_append, List.length_nil]
  omega

theorem counted_drainStep (h : Counted cfg w) (drain : Drain) :
    Counted cfg (w.drainStep cfg drain) := by
  rw [drainStep]
  split
  · rename_i item queue hqueue
    split_ifs
    · exact counted_receive h hqueue
    · exact h.control (exists_drained_eq true drain)
    · exact h.control (exists_flushAndReset_eq _)
  · split_ifs
    · exact h.control (exists_drained_eq true drain)
    · exact h.control (exists_flushAndReset_eq _)

theorem counted_flushWithRetry {store attempt : ℕ} (h : Counted cfg w) (hheld : Held cfg w)
    (hpc : w.pc = .flushing caller attempt) (outcome : Attempt) :
    Counted cfg (w.flushWithRetry store caller attempt outcome) := by
  have hdropped : Counted cfg (w.dropBatch.flushed false caller) :=
    (counted_dropBatch h hheld.size).control (exists_flushed_eq false caller)
  cases outcome with
  | committed =>
    rw [flushWithRetry]
    split
    · exact (counted_commit h hheld.size (hheld.flushing caller attempt hpc)).control
        (exists_flushed_eq true caller)
    · exact hdropped
  | retryable =>
    rw [flushWithRetry]
    split
    · refine ⟨h.enqueued, h.flushed, h.dropped, h.batches, h.rows, ?_⟩
      exact Nat.le_trans h.lost (Nat.mul_le_mul_right _ (Nat.le_succ _))
    · exact hdropped
  | failed => exact hdropped

theorem counted_step {e : Event α} (h : Counted cfg w) (hheld : Held cfg w)
    (hs : step cfg w e = some w') : Counted cfg w' := by
  cases Stepped.of_step hs with
  | enqueue item => exact counted_enqueue h item
  | grant _ _ hitem => exact (counted_waited h hitem).1
  | expire hitem => exact (counted_waited h hitem).2
  | recv hpc hstore hqueue =>
    have hreceived := counted_receive h hqueue
    split_ifs
    · exact hreceived.control (exists_flushAndReset_eq none)
    · exact hreceived
  | timer => exact h.control (exists_flushAndReset_eq none)
  | command cmd => exact h.control (exists_runCommand_eq cmd)
  | drain => exact counted_drainStep h _
  | attempt outcome hpc => exact counted_flushWithRetry h hheld hpc outcome
  | checkpoint ok =>
    cases ok <;> exact ⟨h.enqueued, h.flushed, h.dropped, h.batches, h.rows, h.lost⟩
  | opened ok =>
    cases ok <;> exact ⟨h.enqueued, h.flushed, h.dropped, h.batches, h.rows, h.lost⟩
  | discard => exact counted_discardStep h
  | reset ok =>
    cases ok <;> exact ⟨h.enqueued, h.flushed, h.dropped, h.batches, h.rows, h.lost⟩
  | hangup => exact ⟨h.enqueued, h.flushed, h.dropped, h.batches, h.rows, h.lost⟩
  | exit => exact counted_exit h

variable {files : ℕ → Table α} {store : ℕ} {tr : List (AuditWriter α × Event α)}

/-- Whatever befalls the writer, its counters tell what became of the requests: each one is
written, dropped, on its way, or thrown away by a reset or at the end. A counted batch has at least
one row and at most the batch size, and more rows are lost only with more failed attempts. -/
theorem writer_counters (h : Path (step cfg) (start files store) tr w) :
    w.stats.enqueued = w.stats.flushedRows + w.stats.dropped + w.waiting.length + w.queue.length +
        w.batch.length + w.ledger.discarded.length + w.ledger.abandoned.length ∧
      w.stats.flushedRows = w.ledger.committed.length ∧
      w.stats.dropped = w.ledger.rejected.length + w.ledger.lost.length ∧
      w.stats.batches ≤ w.stats.flushedRows ∧
      w.stats.flushedRows ≤ w.stats.batches * cfg.cap ∧
      w.ledger.lost.length ≤ w.stats.failedBatches * cfg.cap := by
  have hstart : Held cfg (start files store) := held_of_room rfl (cap_pos cfg)
  have hcounted : Counted cfg (start files store) :=
    ⟨rfl, rfl, rfl, Nat.le_refl 0, Nat.zero_le _, Nat.zero_le _⟩
  obtain ⟨-, henqueued, hflushed, hdropped, hbatches, hrows, hlost⟩ :=
    h.invariant_all (P := fun w ↦ Held cfg w ∧ Counted cfg w) ⟨hstart, hcounted⟩
      fun _ _ _ hw hs ↦ ⟨held_step hw.1 hs, counted_step hw.2 hw.1 hs⟩
  exact ⟨henqueued, hflushed, hdropped, hbatches, hrows, hlost⟩

theorem writer_counters_retried :
    ∃ tr, ∃ w : AuditWriter ℕ, Path (step oneRow) (start (fun _ ↦ .empty) 0) tr w ∧
      w.stats.dropped = 1 ∧
      w.stats.enqueued = w.stats.flushedRows + w.stats.dropped + w.waiting.length + w.queue.length +
        w.batch.length + w.ledger.discarded.length + w.ledger.abandoned.length := by
  have hrun : (trace (step oneRow) (start (fun _ ↦ .empty) 0) retriedBatch).map
      (·.2.stats.dropped) = some 1 := by
    decide +kernel
  obtain ⟨⟨tr, w⟩, hr, hdropped⟩ := Option.map_eq_some_iff.mp hrun
  exact ⟨tr, w, Path.of_trace hr, hdropped, (writer_counters (Path.of_trace hr)).1⟩

end QueQiao.Audit
