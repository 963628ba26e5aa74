import QueQiao.Db.Conservation
import QueQiao.Db.WriterAnswers

namespace QueQiao.Audit

open Lib.Transition AuditWriter

def Drain.command : Drain → WriterCmd
  | .flush => .flush
  | .seal => .seal
  | .shutdown => .shutdown

def Drain.answered : Drain → Pc
  | .shutdown => .stopping
  | _ => .select

variable {α : Type*} {cfg : WriterConfig} {w w' v v' : AuditWriter α} {drain : Drain}

/-- A command from the moment the task takes it until it is answered with success. -/
structure Acknowledged (cfg : WriterConfig) (w : AuditWriter α) (drain : Drain)
    (w' : AuditWriter α) : Prop where
  taken : w.pc = .select
  run : ∃ tr, Path (step cfg) (w.runCommand drain.command) tr w' ∧ ∀ p ∈ tr, p.1.pc ≠ drain.answered
  done : w'.pc = drain.answered
  reply : w'.reply = some true

/-- What is queued was accepted after the items of `before`. -/
def QueuedAfter (before : List α) (v : AuditWriter α) : Prop :=
  ∃ between, v.ledger.accepted = before ++ between ++ v.queue

/-- A drain under way, or answered. Before the batch that ends it, which is not full, the queue was
found empty. -/
inductive Settling (before : List α) (drain : Drain) (v : AuditWriter α) : Prop
  | draining (hpc : v.pc = .draining drain)
  | more {attempt : ℕ} (hpc : v.pc = .flushing (some (drain, true)) attempt)
  | last {attempt : ℕ} (hpc : v.pc = .flushing (some (drain, false)) attempt)
      (hqueue : QueuedAfter before v)
  | checkpointing (hseal : drain = .seal) (hpc : v.pc = .checkpointing) (hbatch : v.batch = [])
      (hqueue : QueuedAfter before v)
  | settled (hpc : v.pc = drain.answered) (hbatch : v.batch = []) (hqueue : QueuedAfter before v)
  | refused (hpc : v.pc = drain.answered) (hreply : v.reply = some false)

structure Drained (before : List α) (drain : Drain) (v : AuditWriter α) : Prop where
  accepted : before <+: v.ledger.accepted
  phase : Settling before drain v

section Steps

variable {before : List α}

theorem QueuedAfter.of_empty (haccepted : before <+: v.ledger.accepted) (hqueue : v.queue = []) :
    QueuedAfter before v := by
  obtain ⟨between, h⟩ := haccepted
  exact ⟨between, by rw [h, hqueue, List.append_nil]⟩

theorem QueuedAfter.append {item : α} (h : QueuedAfter before v)
    (hqueue : v'.queue = v.queue ++ [item])
    (haccepted : v'.ledger.accepted = v.ledger.accepted ++ [item]) : QueuedAfter before v' := by
  obtain ⟨between, h⟩ := h
  exact ⟨between, by rw [haccepted, h, hqueue, List.append_assoc]⟩

theorem Settling.of_drained (hbatch : v.batch = []) (hqueue : QueuedAfter before v) :
    Settling before drain (v.drained true drain) := by
  cases drain with
  | flush => exact .settled rfl hbatch hqueue
  | «seal» => exact .checkpointing rfl rfl hbatch hqueue
  | shutdown => exact .settled rfl hbatch hqueue

theorem Settling.of_failed : Settling before drain (v.drained false drain) := by
  cases drain with
  | flush => exact .refused rfl rfl
  | «seal» => exact .refused rfl rfl
  | shutdown => exact .refused rfl rfl

theorem Settling.of_drainStep (hsize : 1 ≤ cfg.batchSize)
    (haccepted : before <+: v.ledger.accepted) (hpc : v.pc = .draining drain) :
    Settling before drain (v.drainStep cfg drain) := by
  have hflush (full : Bool) (hbatch : v.batch ≠ [])
      (hlast : full = false → QueuedAfter before v) :
      Settling before drain (v.flushAndReset (some (drain, full))) := by
    rw [flushAndReset, if_neg hbatch]
    split_ifs
    · exact of_failed
    · cases full with
      | true => exact .more rfl
      | false => exact .last rfl (hlast rfl)
  unfold drainStep
  split
  · split_ifs with hroom hbatch
    · exact .draining hpc
    · rw [hbatch, List.length_nil] at hroom
      omega
    · exact hflush true hbatch fun h ↦ by cases h
  · rename_i hqueue
    have hafter := QueuedAfter.of_empty haccepted hqueue
    split_ifs with hbatch
    · exact of_drained hbatch hafter
    · exact hflush _ hbatch fun _ ↦ hafter

theorem Settling.of_flushWithRetry {full : Bool} (hlast : full = false → QueuedAfter before v)
    (file attempt : ℕ) (outcome : Attempt) :
    Settling before drain (v.flushWithRetry file (some (drain, full)) attempt outcome) := by
  have hdrop : Settling before drain (v.dropBatch.flushed false (some (drain, full))) := of_failed
  cases outcome with
  | committed =>
    simp only [flushWithRetry]
    split
    · cases full with
      | true => exact .draining rfl
      | false => exact of_drained rfl (hlast rfl)
    · exact hdrop
  | retryable =>
    simp only [flushWithRetry]
    split_ifs
    · cases full with
      | true => exact .more rfl
      | false => exact .last rfl (hlast rfl)
    · exact hdrop
  | failed => exact hdrop

theorem Settling.congr (h : Settling before drain v) (hpc : v'.pc = v.pc)
    (hreply : v'.reply = v.reply) (hbatch : v'.batch = v.batch)
    (hqueue : QueuedAfter before v → QueuedAfter before v') : Settling before drain v' := by
  cases h with
  | draining h => exact .draining (hpc.trans h)
  | more h => exact .more (hpc.trans h)
  | last h hq => exact .last (hpc.trans h) (hqueue hq)
  | checkpointing hseal h hb hq =>
    exact .checkpointing hseal (hpc.trans h) (hbatch.trans hb) (hqueue hq)
  | settled h hb hq => exact .settled (hpc.trans h) (hbatch.trans hb) (hqueue hq)
  | refused h hr => exact .refused (hpc.trans h) (hreply.trans hr)

theorem Drained.accept {item : α} (h : Drained before drain v) :
    Drained before drain (v.accept item) where
  accepted := h.accepted.trans (List.prefix_append _ _)
  phase := h.phase.congr rfl rfl rfl fun hqueue ↦ hqueue.append rfl rfl

theorem Drained.sender (h : Drained before drain v) (hpc : v'.pc = v.pc)
    (hreply : v'.reply = v.reply) (hbatch : v'.batch = v.batch) (hqueue : v'.queue = v.queue)
    (haccepted : v'.ledger.accepted = v.ledger.accepted) : Drained before drain v' where
  accepted := haccepted ▸ h.accepted
  phase := by
    refine h.phase.congr hpc hreply hbatch fun hafter ↦ ?_
    obtain ⟨between, hbetween⟩ := hafter
    exact ⟨between, by rw [haccepted, hbetween, hqueue]⟩

def Pc.drains : Pc → Bool
  | .draining _ | .flushing _ _ | .checkpointing => true
  | _ => false

theorem Settling.drains (h : Settling before drain v) (hbusy : v.pc ≠ drain.answered) :
    v.pc.drains = true := by
  cases h with
  | draining hpc => rw [hpc]; rfl
  | more hpc => rw [hpc]; rfl
  | last hpc => rw [hpc]; rfl
  | checkpointing _ hpc => rw [hpc]; rfl
  | settled hpc => exact absurd hpc hbusy
  | refused hpc => exact absurd hpc hbusy

theorem accepted_drained (ok : Bool) (drain : Drain) :
    (v.drained ok drain).ledger.accepted = v.ledger.accepted :=
  congrArg (fun core : Core α ↦ core.ledger.accepted) (core_drained ok drain)

theorem accepted_flushed (ok : Bool) (caller : Option (Drain × Bool)) :
    (v.flushed ok caller).ledger.accepted = v.ledger.accepted :=
  congrArg (fun core : Core α ↦ core.ledger.accepted) (core_flushed ok caller)

theorem accepted_flushAndReset (caller : Option (Drain × Bool)) :
    (v.flushAndReset caller).ledger.accepted = v.ledger.accepted :=
  congrArg (fun core : Core α ↦ core.ledger.accepted) (core_flushAndReset caller)

theorem accepted_drainStep (drain : Drain) :
    (v.drainStep cfg drain).ledger.accepted = v.ledger.accepted := by
  unfold drainStep
  split <;> split_ifs
  · rfl
  · exact accepted_drained _ _
  · exact accepted_flushAndReset _
  · exact accepted_drained _ _
  · exact accepted_flushAndReset _

theorem accepted_flushWithRetry (file : ℕ) (caller : Option (Drain × Bool)) (attempt : ℕ)
    (outcome : Attempt) :
    (v.flushWithRetry file caller attempt outcome).ledger.accepted = v.ledger.accepted := by
  have hdrop : (v.dropBatch.flushed false caller).ledger.accepted = v.ledger.accepted :=
    accepted_flushed _ _
  cases outcome <;> simp only [flushWithRetry]
  case committed =>
    split
    · exact accepted_flushed _ _
    · exact hdrop
  case retryable =>
    split_ifs
    · rfl
    · exact hdrop
  case failed => exact hdrop

theorem Drained.step (hsize : 1 ≤ cfg.batchSize) (h : Drained before drain v) {e : Event α}
    (hstep : step cfg v e = some v') (hbusy : v.pc ≠ drain.answered) :
    Drained before drain v' := by
  have hdrains := h.phase.drains hbusy
  have haccepted (hkept : v'.ledger.accepted = v.ledger.accepted) :
      before <+: v'.ledger.accepted := hkept ▸ h.accepted
  cases Stepped.of_step hstep with
  | enqueue item =>
    simp only [AuditWriter.enqueue]
    split_ifs
    · exact h.sender rfl rfl rfl rfl rfl
    · exact Drained.accept (h.sender rfl rfl rfl rfl rfl)
    · exact h.sender rfl rfl rfl rfl rfl
  | grant => exact Drained.accept (h.sender rfl rfl rfl rfl rfl)
  | expire => exact h.sender rfl rfl rfl rfl rfl
  | drain hpc =>
    refine ⟨haccepted (accepted_drainStep _), ?_⟩
    cases h.phase with
    | draining hpc' =>
      obtain rfl := Pc.draining.inj (hpc.symm.trans hpc')
      exact .of_drainStep hsize h.accepted hpc
    | more hpc' | last hpc' | checkpointing _ hpc' => cases hpc.symm.trans hpc'
    | settled hpc' | refused hpc' => exact absurd hpc' hbusy
  | attempt outcome hpc =>
    refine ⟨haccepted (accepted_flushWithRetry _ _ _ _), ?_⟩
    cases h.phase with
    | more hpc' =>
      obtain ⟨rfl, -⟩ := Pc.flushing.inj (hpc.symm.trans hpc')
      exact .of_flushWithRetry (fun hfull ↦ by cases hfull) _ _ outcome
    | last hpc' hqueue =>
      obtain ⟨rfl, -⟩ := Pc.flushing.inj (hpc.symm.trans hpc')
      exact .of_flushWithRetry (fun _ ↦ hqueue) _ _ outcome
    | draining hpc' | checkpointing _ hpc' => cases hpc.symm.trans hpc'
    | settled hpc' | refused hpc' => exact absurd hpc' hbusy
  | checkpoint ok hpc =>
    cases h.phase with
    | checkpointing hseal _ hbatch hqueue =>
      subst hseal
      cases ok with
      | true => exact ⟨h.accepted, .settled rfl hbatch hqueue⟩
      | false => exact ⟨h.accepted, .refused rfl rfl⟩
    | draining hpc' | more hpc' | last hpc' => cases hpc.symm.trans hpc'
    | settled hpc' | refused hpc' => exact absurd hpc' hbusy
  | recv hpc => rw [hpc] at hdrains; cases hdrains
  | timer hpc => rw [hpc] at hdrains; cases hdrains
  | command cmd hpc => rw [hpc] at hdrains; cases hdrains
  | opened ok hpc => rw [hpc] at hdrains; cases hdrains
  | discard hpc => rw [hpc] at hdrains; cases hdrains
  | reset ok hpc => rw [hpc] at hdrains; cases hdrains
  | hangup hpc => rw [hpc] at hdrains; cases hdrains
  | exit hpc => rw [hpc] at hdrains; cases hdrains

end Steps

section Acknowledged

theorem Drained.discarded {before : List α} {e : Event α} (h : Drained before drain v)
    (hstep : Audit.step cfg v e = some v') (hbusy : v.pc ≠ drain.answered) :
    v'.ledger.discarded = v.ledger.discarded ∧ v'.ledger.erased = v.ledger.erased := by
  have hdrains := h.phase.drains hbusy
  refine (Moves.of_step hstep).discarded ⟨fun hpc ↦ ?_, fun hpc ↦ ?_⟩ <;> rw [hpc] at hdrains <;>
    cases hdrains

/-- A drain of an attached store that is answered with success leaves no item in hand that was
accepted before it. -/
theorem Acknowledged.queuedAfter (hsize : 1 ≤ cfg.batchSize) (h : Acknowledged cfg w drain w')
    (hstore : w.store ≠ none) :
    w'.batch = [] ∧ QueuedAfter w.ledger.accepted w' ∧
      w'.ledger.discarded = w.ledger.discarded ∧ w'.ledger.erased = w.ledger.erased := by
  obtain ⟨tr, hp, hbusy⟩ := h.run
  have hrun : w.runCommand drain.command = { w with pc := .draining drain } := by
    cases drain <;> simp [Drain.command, runCommand, hstore]
  rw [hrun] at hp
  have hend := hp.invariant (P := fun v ↦ Drained w.ledger.accepted drain v ∧
      v.ledger.discarded = w.ledger.discarded ∧ v.ledger.erased = w.ledger.erased)
    (fun v _ ↦ v.pc ≠ drain.answered) hbusy ⟨⟨List.prefix_rfl, .draining rfl⟩, rfl, rfl⟩
    fun v _ _ hv hpc hstep ↦ ⟨hv.1.step hsize hstep hpc,
      (hv.1.discarded hstep hpc).1.trans hv.2.1, (hv.1.discarded hstep hpc).2.trans hv.2.2⟩
  cases hend.1.phase with
  | settled _ hbatch hqueue => exact ⟨hbatch, hqueue, hend.2⟩
  | refused _ hreply => cases hreply.symm.trans h.reply
  | draining hpc | more hpc | last hpc | checkpointing _ hpc =>
    cases drain <;> cases hpc.symm.trans h.done

theorem Acknowledged.core_eq (h : Acknowledged cfg w drain w') (hstore : w.store = none) :
    w'.core = w.core := by
  obtain ⟨tr, hp, hbusy⟩ := h.run
  have hpc : (w.runCommand drain.command).pc = drain.answered := by
    cases drain <;> simp [Drain.command, Drain.answered, runCommand, hstore, answer]
  have hend : w' = w.runCommand drain.command :=
    hp.invariant (P := fun v ↦ v = w.runCommand drain.command)
      (fun v _ ↦ v.pc ≠ drain.answered) hbusy rfl
      fun v _ _ hv hne _ ↦ absurd (hv ▸ hpc) hne
  rw [hend, core_runCommand]

theorem stopped_step {e : Event α} (hstep : step cfg v e = some v') (hpc : v.pc = .stopped) :
    v'.pc = .stopped := by
  cases Stepped.of_step hstep with
  | enqueue item =>
    simp only [AuditWriter.enqueue]
    rw [if_pos hpc]
    exact hpc
  | grant hrunning => exact absurd hpc hrunning
  | expire => exact hpc
  | recv h | timer h | command _ h | drain h | attempt _ h | checkpoint _ h | opened _ h
  | discard h | reset _ h | hangup h => cases hpc.symm.trans h
  | exit => rfl

variable {files : ℕ → Table α} {store : ℕ} {tr : List (AuditWriter α × Event α)}

theorem abandoned_of_running (h : Path (step cfg) (start files store) tr w)
    (hpc : w.pc ≠ .stopped) : w.ledger.abandoned = [] := by
  refine (h.invariant_all (P := fun v ↦ v.pc = .stopped ∨ v.ledger.abandoned = []) (.inr rfl)
    fun v e v' hv hstep ↦ ?_).resolve_left hpc
  rcases hv with hstopped | hnone
  · exact .inl (stopped_step hstep hstopped)
  · by_cases hexit : e = .exit
    · subst hexit
      cases Stepped.of_step hstep
      exact .inl rfl
    · exact .inr (((Moves.of_step hstep).abandoned fun h ↦ absurd h hexit).trans hnone)

theorem Acknowledged.path (h : Path (step cfg) (start files store) tr w)
    (hack : Acknowledged cfg w drain w') :
    ∃ tr', Path (step cfg) (start files store) tr' w' := by
  obtain ⟨tr', hp, -⟩ := hack.run
  have htaken : step cfg w (.command drain.command) = some (w.runCommand drain.command) :=
    if_pos hack.taken
  exact ⟨_, (h.snoc htaken).append hp⟩

/-- Where the items are that were accepted before a command, once it is answered with success. -/
def Settled (w w' : AuditWriter α) : Prop :=
  w.ledger.accepted.Subperm
    (w'.ledger.committed.map Prod.snd ++ w'.ledger.lost ++ w'.ledger.discarded)

theorem Acknowledged.accepted_perm (h : Path (step cfg) (start files store) tr w)
    (hack : Acknowledged cfg w drain w') :
    w'.ledger.accepted.Perm (w'.queue ++ w'.batch ++ (w'.ledger.committed.map Prod.snd ++
      w'.ledger.lost ++ w'.ledger.discarded)) := by
  obtain ⟨tr', hp⟩ := hack.path h
  have hpc : w'.pc ≠ .stopped := by
    rw [hack.done]
    cases drain <;> intro h <;> cases h
  have hperm := (balanced_run hp).accepted
  have habandoned : w'.holdings.ledger.abandoned = [] := abandoned_of_running hp hpc
  rw [habandoned, List.append_nil] at hperm
  simp only [List.append_assoc] at hperm ⊢
  exact hperm

theorem Acknowledged.settled_iff (hsize : 1 ≤ cfg.batchSize)
    (h : Path (step cfg) (start files store) tr w) (hack : Acknowledged cfg w drain w') :
    Settled w w' ↔ w.store ≠ none ∨ w.queue = [] ∧ w.batch = [] := by
  have hperm := hack.accepted_perm h
  by_cases hstore : w.store = none
  · have hcore := hack.core_eq hstore
    have hqueue : w'.queue = w.queue := congrArg Core.queue hcore
    have hbatch : w'.batch = w.batch := congrArg Core.batch hcore
    have hledger : w'.ledger = w.ledger := congrArg Core.ledger hcore
    rw [hqueue, hbatch, hledger] at hperm
    rw [Settled, hledger]
    constructor
    · intro hsettled
      have hle := hsettled.length_le
      rw [hperm.length_eq, List.length_append, List.length_append] at hle
      exact .inr ⟨List.eq_nil_of_length_eq_zero (by omega),
        List.eq_nil_of_length_eq_zero (by omega)⟩
    · rintro (hattached | ⟨hq, hb⟩)
      · exact absurd hstore hattached
      · rw [hq, hb] at hperm
        exact hperm.subperm
  · obtain ⟨hbatch, ⟨between, haccepted⟩, -⟩ := hack.queuedAfter hsize hstore
    refine iff_of_true ?_ (.inl hstore)
    rw [hbatch, List.append_nil, haccepted] at hperm
    have hsettled := (List.perm_append_left_iff _).mp (List.perm_append_comm.trans hperm)
    exact (List.sublist_append_left _ _).subperm.trans hsettled.subperm

theorem Acknowledged.kept (hsize : 1 ≤ cfg.batchSize) (h : Acknowledged cfg w drain w') :
    w'.ledger.discarded = w.ledger.discarded ∧ w'.ledger.erased = w.ledger.erased := by
  by_cases hstore : w.store = none
  · have hledger : w'.ledger = w.ledger := congrArg Core.ledger (h.core_eq hstore)
    rw [hledger]
    exact ⟨rfl, rfl⟩
  · exact (h.queuedAfter hsize hstore).2.2

theorem detached_step {e : Event α} (hstep : step cfg v e = some v') (hresume : e ≠ .opened true)
    (hstore : v.store = none) : v'.store = none ∧ v'.files = v.files := by
  have heffect := Effect.of_step hstep
  generalize hcore : v'.core = core at heffect
  have hstore' : v'.store = core.store := congrArg Core.store hcore
  have hfiles : v'.files = core.files := congrArg Core.files hcore
  rw [hstore', hfiles]
  cases heffect with
  | commit hattached => cases hstore.symm.trans hattached
  | erase hattached => cases hstore.symm.trans hattached
  | attach store => exact absurd rfl hresume
  | detach => exact ⟨rfl, rfl⟩
  | discard =>
    unfold discardStep
    split <;> exact ⟨hstore, rfl⟩
  | _ => exact ⟨hstore, rfl⟩

theorem Acknowledged.sealed (h : Acknowledged cfg w .seal w')
    {tr : List (AuditWriter α × Event α)} (hp : Path (step cfg) w' tr v)
    (hresume : ∀ p ∈ tr, p.2 ≠ .opened true) : v.files = w'.files := by
  have hanswered : Answered cfg w .seal true w' := ⟨h.taken, h.run, h.done, h.reply⟩
  exact (hp.invariant (P := fun v ↦ v.store = none ∧ v.files = w'.files)
    (fun _ e ↦ e ≠ .opened true) hresume ⟨hanswered.seal_store, rfl⟩
    fun v e v' hv he hstep ↦ ⟨(detached_step hstep he hv.1).1,
      (detached_step hstep he hv.1).2.trans hv.2⟩).2

/-- A Flush, Seal or Shutdown that is answered with success has settled what was accepted before it
exactly if it reached a writer with a store, or one with nothing in hand. After a Seal nothing is
written before a store is resumed. -/
theorem acknowledged_settled_iff (hsize : 1 ≤ cfg.batchSize)
    (h : Path (step cfg) (start files store) tr w) (hack : Acknowledged cfg w drain w') :
    ((∀ p ∈ tr, p.2 ≠ .command .reset) →
      (w.ledger.accepted.Subperm (w'.ledger.committed.map Prod.snd ++ w'.ledger.lost) ↔
        w.store ≠ none ∨ w.queue = [] ∧ w.batch = []) ∧
      ∀ k, (w'.files k).items.Perm ((files k).items ++ ofStore k w'.ledger.committed)) ∧
    (Settled w w' ↔ w.store ≠ none ∨ w.queue = [] ∧ w.batch = []) ∧
    w'.stats.dropped = w'.ledger.rejected.length + w'.ledger.lost.length ∧
    (drain = .seal → ∀ tr' v, Path (step cfg) w' tr' v → (∀ p ∈ tr', p.2 ≠ .opened true) →
      v.files = w'.files) := by
  obtain ⟨tr', hp⟩ := hack.path h
  obtain ⟨-, hdropped, hstored⟩ := balanced_run hp
  have hsettled := hack.settled_iff hsize h
  obtain ⟨hdiscarded, herased⟩ := hack.kept hsize
  refine ⟨fun hreset ↦ ?_, hsettled, hdropped, ?_⟩
  · obtain ⟨hnone, hnone'⟩ := discarded_run h hreset
    rw [hnone] at hdiscarded
    rw [hnone'] at herased
    rw [Settled, hdiscarded, List.append_nil] at hsettled
    refine ⟨hsettled, fun k ↦ ?_⟩
    have hperm : ((w'.files k).items ++ ofStore k w'.ledger.erased).Perm
        ((files k).items ++ ofStore k w'.ledger.committed) := hstored k
    rwa [herased, ofStore, List.filter_nil, List.map_nil, List.append_nil] at hperm
  · intro hseal tr' v hp hresume
    subst hseal
    exact hack.sealed hp hresume

def answeredRun (drain : Drain) (before after : List (Event ℕ)) :
    Option (AuditWriter ℕ × List Pc × AuditWriter ℕ) :=
  (trace (step oneRow) (start (fun _ ↦ .empty) 0) before).bind fun r ↦
    (trace (step oneRow) (r.2.runCommand drain.command) after).map fun r' ↦
      (r.2, r'.1.map (·.1.pc), r'.2)

theorem acknowledged_of_answeredRun {before after : List (Event ℕ)} {u u' : AuditWriter ℕ}
    {pcs : List Pc} (h : answeredRun drain before after = some (u, pcs, u')) (htaken : u.pc = .select)
    (hbusy : ∀ pc ∈ pcs, pc ≠ drain.answered) (hdone : u'.pc = drain.answered)
    (hreply : u'.reply = some true) :
    ∃ tr, Path (step oneRow) (start (fun _ ↦ .empty) 0) tr u ∧ tr.map Prod.snd = before ∧
      Acknowledged oneRow u drain u' := by
  obtain ⟨r, hr, h⟩ := Option.bind_eq_some_iff.mp h
  obtain ⟨r', hr', h⟩ := Option.map_eq_some_iff.mp h
  simp only [Prod.mk.injEq] at h
  obtain ⟨rfl, rfl, rfl⟩ := h
  exact ⟨r.1, Path.of_trace hr, trace_labels hr, htaken,
    ⟨r'.1, Path.of_trace hr', fun p hp ↦ hbusy _ (List.mem_map_of_mem hp)⟩, hdone, hreply⟩

theorem acknowledged_settled_iff_flushed :
    ∃ tr, ∃ w w' : AuditWriter ℕ, Path (step oneRow) (start (fun _ ↦ .empty) 0) tr w ∧
      Acknowledged oneRow w .flush w' ∧ w.ledger.accepted = [7] ∧
      (Settled w w' ↔ w.store ≠ none ∨ w.queue = [] ∧ w.batch = []) := by
  have hrun : (answeredRun .flush [.enqueue 7] [.drain, .drain, .attempt .committed, .drain]).map
      (fun r ↦ ((r.1.pc, r.1.ledger.accepted), r.2.1, r.2.2.pc, r.2.2.reply)) =
        some ((.select, [7]), [.draining .flush, .draining .flush, .flushing (some (.flush, true)) 0,
          .draining .flush], .select, some true) := by
    decide +kernel
  obtain ⟨⟨w, pcs, w'⟩, h, hdata⟩ := Option.map_eq_some_iff.mp hrun
  simp only [Prod.mk.injEq] at hdata
  obtain ⟨⟨htaken, haccepted⟩, rfl, hdone, hreply⟩ := hdata
  obtain ⟨tr, hp, -, hack⟩ := acknowledged_of_answeredRun h htaken (by decide) hdone hreply
  exact ⟨tr, w, w', hp, hack, haccepted, (acknowledged_settled_iff (by decide) hp hack).2.1⟩

/-- An item that is accepted while the writer is sealed is neither written nor counted when a
shutdown is answered with success. -/
theorem shutdown_of_sealed_unsettled :
    ∃ tr, ∃ w w' : AuditWriter ℕ, Path (step oneRow) (start (fun _ ↦ .empty) 0) tr w ∧
      tr.map Prod.snd = [.command .seal, .drain, .checkpoint true, .enqueue 7] ∧
      Acknowledged oneRow w .shutdown w' ∧ w.ledger.accepted = [7] ∧
      w'.ledger.committed.map Prod.snd ++ w'.ledger.lost = [] ∧ w'.stats.dropped = 0 := by
  have hrun : (answeredRun .shutdown [.command .seal, .drain, .checkpoint true, .enqueue 7] []).map
      (fun r ↦ decide (r.1.pc = .select ∧ r.1.ledger.accepted = [7] ∧ r.2.1 = [] ∧
        r.2.2.pc = .stopping ∧ r.2.2.reply = some true ∧
          r.2.2.ledger.committed.map Prod.snd ++ r.2.2.ledger.lost = [] ∧
            r.2.2.stats.dropped = 0)) = some true := by
    decide +kernel
  obtain ⟨⟨w, pcs, w'⟩, h, hdata⟩ := Option.map_eq_some_iff.mp hrun
  obtain ⟨htaken, haccepted, rfl, hdone, hreply, hnone, hdropped⟩ := of_decide_eq_true hdata
  obtain ⟨tr, hp, hlabels, hack⟩ :=
    acknowledged_of_answeredRun h htaken (fun _ h ↦ absurd h List.not_mem_nil) hdone hreply
  exact ⟨tr, w, w', hp, hlabels, hack, haccepted, hnone, hdropped⟩

end Acknowledged

end QueQiao.Audit
