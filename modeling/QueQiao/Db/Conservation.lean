import Mathlib.Data.List.Count
import Mathlib.Data.List.Perm.Basic
import QueQiao.Db.WriterEffects

namespace QueQiao.Audit

open Lib.Transition

variable {α : Type*}

structure Holdings (α : Type*) where
  files : ℕ → Table α
  queue : List α
  batch : List α
  dropped : ℕ
  ledger : Ledger α

def AuditWriter.holdings (w : AuditWriter α) : Holdings α :=
  ⟨w.files, w.queue, w.batch, w.stats.dropped, w.ledger⟩

def Core.holdings (core : Core α) : Holdings α :=
  ⟨core.files, core.queue, core.batch, core.dropped, core.ledger⟩

/-- Every accepted item is in one place, the counter `dropped` counts the refused items and those
of failed batches, and a store holds what was committed to it and not erased. -/
structure Balanced (files : ℕ → Table α) (h : Holdings α) : Prop where
  accepted : h.ledger.accepted.Perm (h.queue ++ h.batch ++ h.ledger.committed.map Prod.snd ++
    h.ledger.lost ++ h.ledger.discarded ++ h.ledger.abandoned)
  dropped : h.dropped = h.ledger.rejected.length + h.ledger.lost.length
  stored : ∀ store, ((h.files store).items ++ ofStore store h.ledger.erased).Perm
    ((files store).items ++ ofStore store h.ledger.committed)

theorem ofStore_append (store : ℕ) (l₁ l₂ : List (ℕ × α)) :
    ofStore store (l₁ ++ l₂) = ofStore store l₁ ++ ofStore store l₂ := by
  simp [ofStore]

theorem ofStore_self (store : ℕ) (items : List α) :
    ofStore store (items.map fun item ↦ (store, item)) = items := by
  induction items with
  | nil => rfl
  | cons item items ih => simpa [ofStore] using ih

theorem ofStore_ne {store other : ℕ} (h : other ≠ store) (items : List α) :
    ofStore store (items.map fun item ↦ (other, item)) = [] := by
  simp [ofStore, h]

variable {files : ℕ → Table α} {w : AuditWriter α}

theorem balanced_start (store : ℕ) : Balanced files (start files store).holdings where
  accepted := .refl _
  dropped := rfl
  stored _ := .refl _

section Moves

open AuditWriter

variable (h : Balanced files w.holdings)
include h

theorem balanced_accept (item : α) : Balanced files (w.accept item).holdings where
  accepted := by
    classical
    refine List.perm_iff_count.mpr fun x ↦ ?_
    have hx := List.perm_iff_count.mp h.accepted x
    simp only [holdings, accept, List.count_append] at hx ⊢
    omega
  dropped := h.dropped
  stored := h.stored

theorem balanced_reject (item : α) : Balanced files (w.reject item).holdings where
  accepted := h.accepted
  dropped := by
    have hd := h.dropped
    simp only [holdings, reject, List.length_append, List.length_singleton] at hd ⊢
    omega
  stored := h.stored

theorem balanced_receive {item : α} {queue : List α} (hq : w.queue = item :: queue) :
    Balanced files ({ w with queue := queue, batch := w.batch ++ [item] }).holdings where
  accepted := by
    classical
    refine List.perm_iff_count.mpr fun x ↦ ?_
    have hx := List.perm_iff_count.mp h.accepted x
    simp only [holdings, hq, List.count_append, List.count_cons, List.count_nil] at hx ⊢
    omega
  dropped := h.dropped
  stored := h.stored

theorem balanced_commit {store : ℕ} {table : Table α}
    (ht : (w.files store).insertAll (buildBatch w.batch w.nextId) = some table) :
    Balanced files (w.commit store table).holdings where
  accepted := by
    classical
    refine List.perm_iff_count.mpr fun x ↦ ?_
    have hx := List.perm_iff_count.mp h.accepted x
    have hmap : (w.batch.map fun item ↦ (store, item)).map Prod.snd = w.batch := by
      rw [List.map_map]
      exact List.map_id _
    simp only [holdings, commit, List.count_append, List.map_append, hmap, List.count_nil] at hx ⊢
    omega
  dropped := h.dropped
  stored k := by
    have hk := h.stored k
    have hitems : table.items = (w.files store).items ++ w.batch := by
      rw [Table.items, Table.rows_of_insertAll ht, List.map_append, map_snd_buildBatch, Table.items]
    classical
    refine List.perm_iff_count.mpr fun x ↦ ?_
    have hx := List.perm_iff_count.mp hk x
    by_cases hs : k = store
    · subst hs
      simp only [holdings, commit, Function.update_self, hitems, ofStore_append, ofStore_self,
        List.count_append] at hx ⊢
      omega
    · simp only [holdings, commit, Function.update_of_ne hs, ofStore_append,
        ofStore_ne (Ne.symm hs), List.append_nil] at hx ⊢
      exact hx

theorem balanced_dropBatch : Balanced files w.dropBatch.holdings where
  accepted := by
    classical
    refine List.perm_iff_count.mpr fun x ↦ ?_
    have hx := List.perm_iff_count.mp h.accepted x
    simp only [holdings, dropBatch, List.count_append, List.count_nil] at hx ⊢
    omega
  dropped := by
    have hd := h.dropped
    simp only [holdings, dropBatch, List.length_append] at hd ⊢
    omega
  stored := h.stored

theorem balanced_discardStep : Balanced files w.discardStep.holdings where
  accepted := by
    classical
    refine List.perm_iff_count.mpr fun x ↦ ?_
    have hx := List.perm_iff_count.mp h.accepted x
    unfold discardStep
    split
    · rename_i item queue hq
      simp only [holdings, hq, List.count_append, List.count_cons, List.count_nil] at hx ⊢
      omega
    · rename_i hq
      simp only [holdings, hq, List.count_append, List.count_nil] at hx ⊢
      omega
  dropped := by
    unfold discardStep
    split <;> exact h.dropped
  stored := by
    unfold discardStep
    split <;> exact h.stored

theorem balanced_erase (store : ℕ) : Balanced files (w.erase store).holdings where
  accepted := h.accepted
  dropped := h.dropped
  stored k := by
    have hk := h.stored k
    classical
    refine List.perm_iff_count.mpr fun x ↦ ?_
    have hx := List.perm_iff_count.mp hk x
    by_cases hs : k = store
    · subst hs
      have hempty : (Table.empty : Table α).items = [] := rfl
      simp only [holdings, erase, Function.update_self, hempty, ofStore_append, ofStore_self,
        List.count_append, List.count_nil] at hx ⊢
      omega
    · simp only [holdings, erase, Function.update_of_ne hs, ofStore_append,
        ofStore_ne (Ne.symm hs), List.append_nil] at hx ⊢
      exact hx

theorem balanced_exit : Balanced files w.exit.holdings where
  accepted := by
    classical
    refine List.perm_iff_count.mpr fun x ↦ ?_
    have hx := List.perm_iff_count.mp h.accepted x
    simp only [holdings, AuditWriter.exit, List.count_append, List.count_nil] at hx ⊢
    omega
  dropped := h.dropped
  stored := h.stored

end Moves

/-- What a step can do with the items, whatever else it does. -/
inductive Moves (w : AuditWriter α) : Event α → Holdings α → Prop
  | none (e : Event α) : Moves w e w.holdings
  | accept (e : Event α) (item : α) : Moves w e (w.accept item).holdings
  | reject (e : Event α) (item : α) : Moves w e (w.reject item).holdings
  | receive (e : Event α) {item : α} {queue : List α} (hq : w.queue = item :: queue) :
      Moves w e ({ w with queue := queue, batch := w.batch ++ [item] }).holdings
  | commit (e : Event α) {store : ℕ} {table : Table α}
      (ht : (w.files store).insertAll (buildBatch w.batch w.nextId) = some table) :
      Moves w e (w.commit store table).holdings
  | dropBatch (e : Event α) : Moves w e w.dropBatch.holdings
  | discard (hpc : w.pc = .discarding) : Moves w .discard w.discardStep.holdings
  | erase (store : ℕ) (hpc : w.pc = .resetting) : Moves w (.reset true) (w.erase store).holdings
  | exit : Moves w .exit w.exit.holdings

theorem Effect.moves {e : Event α} {core : Core α} (h : Effect w e core) :
    Moves w e core.holdings := by
  cases h with
  | none => exact .none e
  | accept _ item => exact .accept e item
  | reject _ item => exact .reject e item
  | receive _ hq => exact .receive e hq
  | commit _ ht => exact .commit _ ht
  | dropBatch => exact .dropBatch _
  | detach => exact .none _
  | attach => exact .none _
  | discard hpc => exact .discard hpc
  | erase _ hpc => exact .erase _ hpc
  | exit => exact .exit

theorem Moves.of_step {cfg : WriterConfig} {e : Event α} {w' : AuditWriter α}
    (hs : step cfg w e = some w') : Moves w e w'.holdings := (Effect.of_step hs).moves

theorem Moves.balanced {e : Event α} {holdings : Holdings α} (hm : Moves w e holdings)
    (h : Balanced files w.holdings) : Balanced files holdings := by
  cases hm with
  | none => exact h
  | accept _ item => exact balanced_accept h item
  | reject _ item => exact balanced_reject h item
  | receive _ hq => exact balanced_receive h hq
  | commit _ ht => exact balanced_commit h ht
  | dropBatch => exact balanced_dropBatch h
  | discard => exact balanced_discardStep h
  | erase store => exact balanced_erase h store
  | exit => exact balanced_exit h

theorem Moves.abandoned {e : Event α} {holdings : Holdings α} (hm : Moves w e holdings)
    (hexit : e = .exit → w.queue = [] ∧ w.batch = []) :
    holdings.ledger.abandoned = w.ledger.abandoned := by
  cases hm with
  | discard =>
    unfold AuditWriter.discardStep
    split <;> rfl
  | exit =>
    obtain ⟨hq, hb⟩ := hexit rfl
    simp [AuditWriter.holdings, AuditWriter.exit, hq, hb]
  | _ => rfl

theorem Moves.discarded {e : Event α} {holdings : Holdings α} (hm : Moves w e holdings)
    (hpc : w.pc ≠ .discarding ∧ w.pc ≠ .resetting) :
    holdings.ledger.discarded = w.ledger.discarded ∧ holdings.ledger.erased = w.ledger.erased := by
  cases hm with
  | discard h => exact absurd h hpc.1
  | erase store h => exact absurd h hpc.2
  | _ => exact ⟨rfl, rfl⟩

section Reset

def Pc.isReset : Pc → Bool
  | .discarding | .resetting => true
  | _ => false

theorem isReset_drained (ok : Bool) (drain : Drain) : (w.drained ok drain).pc.isReset = false := by
  cases drain with
  | flush => rfl
  | «seal» => cases ok <;> rfl
  | shutdown => rfl

theorem isReset_flushed (ok : Bool) (caller : Option (Drain × Bool)) :
    (w.flushed ok caller).pc.isReset = false := by
  cases caller with
  | none => rfl
  | some c =>
    simp only [AuditWriter.flushed]
    split
    · rfl
    · exact isReset_drained ok c.1

theorem isReset_flushAndReset (caller : Option (Drain × Bool)) :
    (w.flushAndReset caller).pc.isReset = false := by
  unfold AuditWriter.flushAndReset
  split_ifs
  · exact isReset_flushed _ _
  · exact isReset_flushed _ _
  · rfl

theorem isReset_flushWithRetry (store : ℕ) (caller : Option (Drain × Bool)) (attempt : ℕ)
    (outcome : Attempt) : (w.flushWithRetry store caller attempt outcome).pc.isReset = false := by
  cases outcome <;> simp only [AuditWriter.flushWithRetry]
  case failed => exact isReset_flushed _ _
  all_goals
    split
    · first | exact isReset_flushed _ _ | rfl
    · exact isReset_flushed _ _

end Reset

theorem isReset_step {cfg : WriterConfig} {e : Event α} {w' : AuditWriter α}
    (hs : step cfg w e = some w') (hcmd : e ≠ .command .reset) (hpc : w.pc.isReset = false) :
    w'.pc.isReset = false := by
  cases Stepped.of_step hs with
  | enqueue item =>
    simp only [AuditWriter.enqueue]
    split_ifs <;> exact hpc
  | grant => exact hpc
  | expire => exact hpc
  | recv =>
    split_ifs
    · exact isReset_flushAndReset _
    · exact hpc
  | timer => exact isReset_flushAndReset _
  | command cmd =>
    cases cmd with
    | reset => exact absurd rfl hcmd
    | resume => rfl
    | _ =>
      simp only [AuditWriter.runCommand]
      split <;> rfl
  | drain =>
    unfold AuditWriter.drainStep
    split <;> split_ifs <;>
      first | exact hpc | exact isReset_drained _ _ | exact isReset_flushAndReset _
  | attempt => exact isReset_flushWithRetry _ _ _ _
  | checkpoint => rfl
  | opened => rfl
  | discard hdiscard =>
    rw [hdiscard] at hpc
    cases hpc
  | reset => rfl
  | hangup => rfl
  | exit => rfl

variable {cfg : WriterConfig} {store : ℕ} {tr : List (AuditWriter α × Event α)}

theorem balanced_run (h : Path (step cfg) (start files store) tr w) : Balanced files w.holdings :=
  h.invariant_all (P := fun w ↦ Balanced files w.holdings) (balanced_start store)
    fun _ _ _ hw hs ↦ (Moves.of_step hs).balanced hw

theorem abandoned_run (h : Path (step cfg) (start files store) tr w)
    (hexit : ∀ p ∈ tr, p.2 = .exit → p.1.queue = [] ∧ p.1.batch = []) : w.ledger.abandoned = [] :=
  h.invariant (P := fun w ↦ w.ledger.abandoned = [])
    (fun w e ↦ e = .exit → w.queue = [] ∧ w.batch = []) hexit rfl
    fun _ _ _ hw hok hs ↦ ((Moves.of_step hs).abandoned hok).trans hw

theorem discarded_run (h : Path (step cfg) (start files store) tr w)
    (hcmd : ∀ p ∈ tr, p.2 ≠ .command .reset) :
    w.ledger.discarded = [] ∧ w.ledger.erased = [] := by
  refine (h.invariant (P := fun w ↦ w.pc.isReset = false ∧ w.ledger.discarded = [] ∧
    w.ledger.erased = []) (fun _ e ↦ e ≠ .command .reset) hcmd ⟨rfl, rfl, rfl⟩ ?_).2
  intro w e w' ⟨hpc, hd, he⟩ hok hs
  have hnot : w.pc ≠ .discarding ∧ w.pc ≠ .resetting := by
    constructor <;> rintro heq <;> rw [heq] at hpc <;> cases hpc
  obtain ⟨hd', he'⟩ := (Moves.of_step hs).discarded hnot
  exact ⟨isReset_step hs hok hpc, hd'.trans hd, he'.trans he⟩

/-- An accepted item is queued, in the batch, committed, lost with a failed batch and counted, or
discarded by a reset, as long as the task does not end with items in hand. -/
theorem accepted_items_conserved (h : Path (step cfg) (start files store) tr w)
    (hexit : ∀ p ∈ tr, p.2 = .exit → p.1.queue = [] ∧ p.1.batch = []) :
    w.ledger.accepted.Perm (w.queue ++ w.batch ++ w.ledger.committed.map Prod.snd ++
        w.ledger.lost ++ w.ledger.discarded) ∧
      w.stats.dropped = w.ledger.rejected.length + w.ledger.lost.length ∧
      (∀ store, ((w.files store).items ++ ofStore store w.ledger.erased).Perm
        ((files store).items ++ ofStore store w.ledger.committed)) ∧
      ((∀ p ∈ tr, p.2 ≠ .command .reset) → w.ledger.discarded = [] ∧ w.ledger.erased = []) := by
  obtain ⟨haccepted, hdropped, hstored⟩ := balanced_run h
  refine ⟨?_, hdropped, hstored, discarded_run h⟩
  have habandoned : w.holdings.ledger.abandoned = [] := abandoned_run h hexit
  rw [habandoned, List.append_nil] at haccepted
  exact haccepted

def oneRow : WriterConfig := ⟨1, 1⟩

/-- A batch that fails twice and is written then, and one that fails for good. -/
def retriedBatch : List (Event ℕ) :=
  [.enqueue 7, .recv, .attempt .retryable, .attempt .retryable, .attempt .committed,
    .enqueue 8, .recv, .attempt .failed]

theorem accepted_items_conserved_retried :
    ∃ tr, ∃ w : AuditWriter ℕ, Path (step oneRow) (start (fun _ ↦ .empty) 0) tr w ∧
      w.stats.dropped = 1 ∧
      w.ledger.accepted.Perm (w.queue ++ w.batch ++ w.ledger.committed.map Prod.snd ++
        w.ledger.lost ++ w.ledger.discarded) := by
  have hrun : (trace (step oneRow) (start (fun _ ↦ .empty) 0) retriedBatch).map
      (·.2.stats.dropped) = some 1 := by
    decide +kernel
  obtain ⟨⟨tr, w⟩, hr, hdropped⟩ := Option.map_eq_some_iff.mp hrun
  refine ⟨tr, w, Path.of_trace hr, hdropped,
    (accepted_items_conserved (Path.of_trace hr) fun p hp hexit ↦ ?_).1⟩
  have hl : p.2 ∈ retriedBatch := trace_labels hr ▸ List.mem_map_of_mem hp
  simp only [hexit, retriedBatch, List.mem_cons, reduceCtorEq, List.not_mem_nil, or_self] at hl

theorem reset_discards :
    ∃ tr, ∃ w : AuditWriter ℕ, Path (step oneRow) (start (fun _ ↦ .empty) 0) tr w ∧
      w.ledger.accepted = [7] ∧ w.stats.dropped = 0 ∧
      ¬w.ledger.accepted.Perm (w.queue ++ w.batch ++ w.ledger.committed.map Prod.snd ++
        w.ledger.lost) := by
  have hrun : (trace (step oneRow) (start (fun _ ↦ .empty) 0)
      [.enqueue 7, .command .reset, .discard, .discard, .reset true]).map
      (fun r ↦ (r.2.ledger.accepted, r.2.stats.dropped, r.2.queue ++ r.2.batch ++
        r.2.ledger.committed.map Prod.snd ++ r.2.ledger.lost)) = some ([7], 0, []) := by
    decide +kernel
  obtain ⟨⟨tr, w⟩, hr, hs⟩ := Option.map_eq_some_iff.mp hrun
  simp only [Prod.mk.injEq] at hs
  obtain ⟨haccepted, hdropped, hplaces⟩ := hs
  refine ⟨tr, w, Path.of_trace hr, haccepted, hdropped, fun hperm ↦ ?_⟩
  rw [hplaces, haccepted] at hperm
  simpa using hperm.length_eq

theorem shutdown_sealed (hpc : w.pc = .select) (hstore : w.store = none) :
    ∃ w', (step cfg w (.command .shutdown)).bind (step cfg · .exit) = some w' ∧
      w'.reply = some true ∧
      w'.ledger.abandoned = w.ledger.abandoned ++ w.queue ++ w.batch := by
  refine ⟨({ w with reply := some true, pc := .stopping } : AuditWriter α).exit, ?_, rfl, rfl⟩
  simp [step, hpc, hstore, AuditWriter.runCommand]

end QueQiao.Audit
