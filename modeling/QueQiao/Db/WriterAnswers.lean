import QueQiao.Db.Writer

namespace QueQiao.Audit

open Lib.Transition AuditWriter

section Answers

variable {α : Type*} {cfg : WriterConfig} {w w' v v' : AuditWriter α} {ok : Bool}

/-- A command from the moment the task takes it until it is answered. -/
structure Answered (cfg : WriterConfig) (w : AuditWriter α) (cmd : WriterCmd) (ok : Bool)
    (w' : AuditWriter α) : Prop where
  idle : w.pc = .select
  run : ∃ tr, Path (step cfg) (w.runCommand cmd) tr w' ∧ ∀ p ∈ tr, p.1.pc ≠ .select
  done : w'.pc = .select
  reply : w'.reply = some ok

inductive Sealing (store : Option ℕ) (v : AuditWriter α) : Prop
  | draining (hs : v.store = store) (hpc : v.pc = .draining .seal)
  | flushing (hs : v.store = store) {full : Bool} {attempt : ℕ}
      (hpc : v.pc = .flushing (some (.seal, full)) attempt)
  | checkpointing (hs : v.store = store) (hpc : v.pc = .checkpointing)
  | sealed (hs : v.store = none) (hpc : v.pc = .select) (hr : v.reply = some true)
  | refused (hs : v.store = store) (hpc : v.pc = .select) (hr : v.reply = some false)

variable {store : Option ℕ}

theorem Sealing.of_drained (hs : v.store = store) (ok : Bool) :
    Sealing store (v.drained ok .seal) := by
  cases ok with
  | true => exact .checkpointing hs rfl
  | false => exact .refused hs rfl rfl

theorem Sealing.of_flushed (hs : v.store = store) (ok full : Bool) :
    Sealing store (v.flushed ok (some (.seal, full))) := by
  simp only [flushed]
  split
  · exact .draining hs rfl
  · exact of_drained hs ok

theorem Sealing.of_flushAndReset (hs : v.store = store) (full : Bool) :
    Sealing store (v.flushAndReset (some (.seal, full))) := by
  unfold flushAndReset
  split_ifs
  · exact of_flushed hs _ _
  · exact of_flushed hs _ _
  · exact .flushing hs rfl

theorem Sealing.of_drainStep (hs : v.store = store) (hpc : v.pc = .draining .seal) :
    Sealing store (v.drainStep cfg .seal) := by
  unfold drainStep
  split <;> split_ifs
  · exact .draining hs hpc
  · exact of_drained hs _
  · exact of_flushAndReset hs _
  · exact of_drained hs _
  · exact of_flushAndReset hs _

theorem Sealing.of_flushWithRetry (hs : v.store = store) (file : ℕ) (full : Bool) (attempt : ℕ)
    (outcome : Attempt) :
    Sealing store (v.flushWithRetry file (some (.seal, full)) attempt outcome) := by
  have hdrop : Sealing store (v.dropBatch.flushed false (some (.seal, full))) :=
    of_flushed (v := v.dropBatch) hs _ _
  cases outcome <;> simp only [flushWithRetry]
  case committed =>
    split
    · rename_i table _
      exact of_flushed (v := v.commit file table) hs _ _
    · exact hdrop
  case retryable =>
    split
    · exact .flushing hs rfl
    · exact hdrop
  case failed => exact hdrop

theorem Sealing.congr (h : Sealing store v) (hs : v'.store = v.store) (hpc : v'.pc = v.pc)
    (hr : v'.reply = v.reply) : Sealing store v' := by
  cases h with
  | draining h₁ h₂ => exact .draining (hs.trans h₁) (hpc.trans h₂)
  | flushing h₁ h₂ => exact .flushing (hs.trans h₁) (hpc.trans h₂)
  | checkpointing h₁ h₂ => exact .checkpointing (hs.trans h₁) (hpc.trans h₂)
  | sealed h₁ h₂ h₃ => exact .sealed (hs.trans h₁) (hpc.trans h₂) (hr.trans h₃)
  | refused h₁ h₂ h₃ => exact .refused (hs.trans h₁) (hpc.trans h₂) (hr.trans h₃)

/-- Outside its `select!` the task only goes on with the command at hand. -/
inductive Busy (cfg : WriterConfig) (v : AuditWriter α) : AuditWriter α → Prop
  | sender {v' : AuditWriter α} (hs : v'.store = v.store) (hpc : v'.pc = v.pc)
      (hr : v'.reply = v.reply) : Busy cfg v v'
  | drain {drain : Drain} (hpc : v.pc = .draining drain) : Busy cfg v (v.drainStep cfg drain)
  | attempt {caller : Option (Drain × Bool)} {attempt file : ℕ} (outcome : Attempt)
      (hpc : v.pc = .flushing caller attempt) :
      Busy cfg v (v.flushWithRetry file caller attempt outcome)
  | checkpoint (ok : Bool) (hpc : v.pc = .checkpointing) :
      Busy cfg v ((if ok then { v with store := none } else v).answer ok)
  | opened (ok : Bool) {file : ℕ} (hpc : v.pc = .opening file) :
      Busy cfg v
        ((if ok then { v with store := some file, nextId := (v.files file).nextId } else v).answer
          ok)
  | reset {v' : AuditWriter α} (hpc : v.pc = .discarding ∨ v.pc = .resetting) : Busy cfg v v'
  | exit (hpc : v.pc = .stopping) : Busy cfg v v.exit

theorem Busy.of_step {e : Event α} (hstep : step cfg v e = some v') (hpc : v.pc ≠ .select) :
    Busy cfg v v' := by
  cases Stepped.of_step hstep with
  | enqueue item =>
    simp only [AuditWriter.enqueue]
    split_ifs <;> exact .sender rfl rfl rfl
  | grant => exact .sender rfl rfl rfl
  | expire => exact .sender rfl rfl rfl
  | recv hselect => exact absurd hselect hpc
  | timer hselect => exact absurd hselect hpc
  | command cmd hselect => exact absurd hselect hpc
  | drain h => exact .drain h
  | attempt outcome h => exact .attempt outcome h
  | checkpoint ok h => exact .checkpoint ok h
  | opened ok h => exact .opened ok h
  | discard h => exact .reset (.inl h)
  | reset ok h => exact .reset (.inr h)
  | hangup hselect => exact absurd hselect hpc
  | exit h => exact .exit h

theorem Sealing.step (h : Sealing store v) (hb : Busy cfg v v') (hpc : v.pc ≠ .select) :
    Sealing store v' := by
  cases hb with
  | sender hs hpc hr => exact h.congr hs hpc hr
  | drain hd =>
    cases h with
    | draining hs hpc =>
      obtain rfl := Pc.draining.inj (hd.symm.trans hpc)
      exact of_drainStep hs hpc
    | _ => simp_all
  | attempt outcome ha =>
    cases h with
    | flushing hs hpc =>
      obtain ⟨rfl, rfl⟩ := Pc.flushing.inj (ha.symm.trans hpc)
      exact of_flushWithRetry hs _ _ _ _
    | _ => simp_all
  | checkpoint ok hc =>
    cases h with
    | checkpointing hs =>
      cases ok with
      | true => exact .sealed rfl rfl rfl
      | false => exact .refused hs rfl rfl
    | _ => simp_all
  | opened | reset | exit => cases h <;> simp_all

theorem Answered.seal_store (h : Answered cfg w .seal ok w') :
    w'.store = if ok then none else w.store := by
  obtain ⟨hidle, ⟨tr, hp, hbusy⟩, hdone, hreply⟩ := h
  have hstart : Sealing w.store (w.runCommand .seal) := by
    cases hs : w.store with
    | none =>
      rw [runCommand, hs]
      exact .sealed hs rfl rfl
    | some file =>
      have hrun : w.runCommand .seal = { w with pc := .draining .seal } := by simp [runCommand, hs]
      rw [hrun]
      exact .draining hs rfl
  have hend : Sealing w.store w' := hp.invariant (fun v _ ↦ v.pc ≠ .select) hbusy hstart
    fun v _ _ hv hpc hstep ↦ hv.step (Busy.of_step hstep hpc) hpc
  cases hend with
  | sealed hs _ hr =>
    obtain rfl : ok = true := Option.some.inj (hreply.symm.trans hr)
    exact hs
  | refused hs _ hr =>
    obtain rfl : ok = false := Option.some.inj (hreply.symm.trans hr)
    exact hs
  | draining _ hpc | flushing _ hpc | checkpointing _ hpc => simp [hpc] at hdone

theorem Answered.resume_store {file : ℕ} (h : Answered cfg w (.resume file) ok w') :
    w'.store = if ok then some file else w.store := by
  obtain ⟨hidle, ⟨tr, hp, hbusy⟩, hdone, hreply⟩ := h
  have hend := hp.invariant
    (P := fun v ↦ (v.store = w.store ∧ v.pc = .opening file) ∨
      (v.pc = .select ∧ ∃ ok : Bool, v.reply = some ok ∧
        v.store = if ok then some file else w.store))
    (fun v _ ↦ v.pc ≠ .select) hbusy (.inl ⟨rfl, rfl⟩) ?_
  · rcases hend with ⟨-, hpc⟩ | ⟨-, ok', hr, hs⟩
    · simp [hpc] at hdone
    · obtain rfl : ok = ok' := Option.some.inj (hreply.symm.trans hr)
      exact hs
  · rintro v e v' (⟨hs, hpc⟩ | ⟨hpc, -⟩) hbusy hstep
    · cases Busy.of_step hstep hbusy with
      | sender hs' hpc' => exact .inl ⟨hs'.trans hs, hpc'.trans hpc⟩
      | opened ok ho =>
        obtain rfl := Pc.opening.inj (ho.symm.trans hpc)
        refine .inr ⟨rfl, ok, rfl, ?_⟩
        cases ok with
        | true => rfl
        | false => exact hs
      | _ => simp_all
    · exact absurd hpc hbusy

end Answers

end QueQiao.Audit
