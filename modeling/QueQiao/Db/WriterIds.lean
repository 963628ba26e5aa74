import QueQiao.Db.Payload

namespace QueQiao.Audit

open Lib.Transition

/-- The writer, and beside the records of the stores their payloads, which are a table of their
own. -/
structure Stored where
  writer : AuditWriter AuditItem
  payloads : ℕ → Table Row

namespace Stored

def payloadRow (row : ℤ × AuditItem) : ℤ × Row :=
  (row.1, payloadParams row.1 row.2.request row.2.response row.2.headers)

def buildPayloads (batch : List AuditItem) (startId : ℤ) : List (ℤ × Row) :=
  (buildBatch batch startId).map payloadRow

def executeBatch (records : Table AuditItem) (payloads : Table Row) (batch : List AuditItem)
    (startId : ℤ) : Option (Table AuditItem × Table Row) := do
  let records ← records.insertAll (buildBatch batch startId)
  let payloads ← payloads.insertAll (buildPayloads batch startId)
  return (records, payloads)

/-- The database answers `committed` if both statements and the commit succeed; a row of either
statement whose id is taken fails the batch for good. -/
def step (cfg : WriterConfig) (s : Stored) (e : Event AuditItem) : Option Stored :=
  match e, s.writer.store with
  | .attempt .committed, some store =>
    match executeBatch (s.writer.files store) (s.payloads store) s.writer.batch s.writer.nextId with
    | some (_, payloads) =>
      (Audit.step cfg s.writer (.attempt .committed)).map fun writer ↦
        ⟨writer, Function.update s.payloads store payloads⟩
    | none => (Audit.step cfg s.writer (.attempt .failed)).map fun writer ↦ ⟨writer, s.payloads⟩
  | .reset true, some store =>
    (Audit.step cfg s.writer (.reset true)).map fun writer ↦
      ⟨writer, Function.update s.payloads store .empty⟩
  | e, _ => (Audit.step cfg s.writer e).map fun writer ↦ ⟨writer, s.payloads⟩

def start (files : ℕ → Table AuditItem) (payloads : ℕ → Table Row) (store : ℕ) : Stored :=
  ⟨Audit.start files store, payloads⟩

end Stored

section Ids

variable {α : Type*}

theorem mem_ids_buildBatch {batch : List α} {startId id : ℤ} :
    id ∈ (buildBatch batch startId).map Prod.fst ↔ startId ≤ id ∧ id < startId + batch.length := by
  induction batch generalizing startId with
  | nil =>
    simp only [buildBatch, List.map_nil, List.not_mem_nil, List.length_nil, false_iff]
    omega
  | cons item batch ih =>
    rw [buildBatch, List.map_cons, List.mem_cons, ih, List.length_cons]
    push_cast
    omega

theorem buildBatch_append (batch batch' : List α) (startId : ℤ) :
    buildBatch (batch ++ batch') startId =
      buildBatch batch startId ++ buildBatch batch' (startId + batch.length) := by
  induction batch generalizing startId with
  | nil => simp [buildBatch]
  | cons item batch ih =>
    rw [List.cons_append, buildBatch, ih, buildBatch, List.cons_append, List.length_cons]
    congr 3
    push_cast
    omega

theorem lt_nextId {table : Table α} {id : ℤ} (h : id ∈ table.rows.map Prod.fst) :
    id < table.nextId := by
  cases hmax : (table.rows.map Prod.fst).max? with
  | none =>
    rw [List.max?_eq_none_iff.mp hmax] at h
    cases h
  | some maxId =>
    have hle := (List.max?_eq_some_iff.mp hmax).2 id h
    rw [Table.nextId, hmax, Option.getD_some]
    omega

theorem nextId_of_rows {table table' : Table α} {items : List α}
    (h : table'.rows = table.rows ++ buildBatch items table.nextId) :
    table'.nextId = table.nextId + items.length := by
  cases items with
  | nil =>
    rw [buildBatch, List.append_nil] at h
    rw [Table.nextId, h, ← Table.nextId, List.length_nil]
    omega
  | cons item items =>
    have hmax : (table'.rows.map Prod.fst).max? =
        some (table.nextId + (item :: items).length - 1) := by
      rw [List.max?_eq_some_iff, h, List.map_append]
      constructor
      · rw [List.mem_append, mem_ids_buildBatch, List.length_cons]
        push_cast
        omega
      · intro id hid
        obtain hold | hnew := List.mem_append.mp hid
        · have hlt := lt_nextId hold
          rw [List.length_cons]
          push_cast
          omega
        · have hlt := (mem_ids_buildBatch.mp hnew).2
          omega
    rw [Table.nextId, hmax, Option.getD_some]
    omega

end Ids

namespace Stored

variable {cfg : WriterConfig} {s t u : Stored} {e : Event AuditItem}

theorem buildPayloads_append (batch batch' : List AuditItem) (startId : ℤ) :
    buildPayloads (batch ++ batch') startId =
      buildPayloads batch startId ++ buildPayloads batch' (startId + batch.length) := by
  rw [buildPayloads, buildBatch_append, List.map_append]
  rfl

theorem executeBatch_eq_some {records records' : Table AuditItem} {payloads payloads' : Table Row}
    {batch : List AuditItem} {startId : ℤ}
    (h : executeBatch records payloads batch startId = some (records', payloads')) :
    records.insertAll (buildBatch batch startId) = some records' ∧
      payloads.insertAll (buildPayloads batch startId) = some payloads' := by
  obtain ⟨r, hr, h⟩ := Option.bind_eq_some_iff.mp h
  obtain ⟨p, hp, h⟩ := Option.bind_eq_some_iff.mp h
  cases h
  exact ⟨hr, hp⟩

/-- What a step does to the tables: it commits a batch to both, erases both, or leaves them. -/
inductive Change (s : Stored) : Event AuditItem → Stored → Prop
  | keep {e : Event AuditItem} {t : Stored} (hfiles : t.writer.files = s.writer.files)
      (hpayloads : t.payloads = s.payloads)
      (hcommitted : t.writer.ledger.committed = s.writer.ledger.committed)
      (hnext : t.writer.nextId = s.writer.nextId ∨ e = .opened true) : Change s e t
  | commit {t : Stored} {store : ℕ} {records : Table AuditItem} {payloads : Table Row}
      (hstore : s.writer.store = some store)
      (hexecute : executeBatch (s.writer.files store) (s.payloads store) s.writer.batch
        s.writer.nextId = some (records, payloads))
      (hcore : t.writer.core = (s.writer.commit store records).core)
      (hpayloads : t.payloads = Function.update s.payloads store payloads) :
      Change s (.attempt .committed) t
  | erase {t : Stored} {store : ℕ} (hstore : s.writer.store = some store)
      (hcore : t.writer.core = (s.writer.erase store).core)
      (hpayloads : t.payloads = Function.update s.payloads store .empty) :
      Change s (.reset true) t

theorem effect_keeps {w w' : AuditWriter AuditItem} (h : Effect w e w'.core)
    (hcommitted : e ≠ .attempt .committed) (hreset : e ≠ .reset true) :
    w'.files = w.files ∧ w'.ledger.committed = w.ledger.committed ∧
      (w'.nextId = w.nextId ∨ e = .opened true) := by
  generalize hcore : w'.core = core at h
  have hfiles : w'.files = core.files := congrArg Core.files hcore
  have hledger : w'.ledger = core.ledger := congrArg Core.ledger hcore
  have hnext : w'.nextId = core.nextId := congrArg Core.nextId hcore
  rw [hfiles, hledger, hnext]
  cases h with
  | commit => exact absurd rfl hcommitted
  | erase => exact absurd rfl hreset
  | attach => exact ⟨rfl, rfl, .inr rfl⟩
  | discard =>
    refine ⟨?_, ?_, .inl ?_⟩ <;> simp only [AuditWriter.discardStep] <;> split <;> rfl
  | _ => exact ⟨rfl, rfl, .inl rfl⟩

theorem step_eq (hcommitted : e ≠ .attempt .committed) (hreset : e ≠ .reset true) :
    step cfg s e = (Audit.step cfg s.writer e).map fun writer ↦ ⟨writer, s.payloads⟩ := by
  unfold step
  split
  · exact absurd rfl hcommitted
  · exact absurd rfl hreset
  · rfl

theorem step_writer (h : step cfg s e = some t) :
    ∃ e', Audit.step cfg s.writer e' = some t.writer := by
  unfold step at h
  split at h
  · split at h
    · obtain ⟨writer, hw, rfl⟩ := Option.map_eq_some_iff.mp h
      exact ⟨_, hw⟩
    · obtain ⟨writer, hw, rfl⟩ := Option.map_eq_some_iff.mp h
      exact ⟨_, hw⟩
  · obtain ⟨writer, hw, rfl⟩ := Option.map_eq_some_iff.mp h
    exact ⟨_, hw⟩
  · obtain ⟨writer, hw, rfl⟩ := Option.map_eq_some_iff.mp h
    exact ⟨_, hw⟩

theorem Change.of_committed {store : ℕ} (hstore : s.writer.store = some store)
    (h : step cfg s (.attempt .committed) = some t) : Change s (.attempt .committed) t := by
  simp only [step, hstore] at h
  split at h
  · rename_i records payloads hexecute
    obtain ⟨writer, hw, rfl⟩ := Option.map_eq_some_iff.mp h
    have hrecords := (executeBatch_eq_some hexecute).1
    refine .commit hstore hexecute ?_ rfl
    simp only [Audit.step, hstore] at hw
    split at hw
    · rename_i heq
      cases heq
      obtain rfl := Option.some.inj hw
      simp only [AuditWriter.flushWithRetry, hrecords, core_flushed]
    · cases hw
  · obtain ⟨writer, hw, rfl⟩ := Option.map_eq_some_iff.mp h
    obtain ⟨hfiles, hcommitted, hnext⟩ := effect_keeps (Effect.of_step hw) (by simp) (by simp)
    exact .keep hfiles rfl hcommitted (.inl (hnext.resolve_right (by simp)))

theorem Change.of_reset {store : ℕ} (hstore : s.writer.store = some store)
    (h : step cfg s (.reset true) = some t) : Change s (.reset true) t := by
  simp only [step, hstore] at h
  obtain ⟨writer, hw, rfl⟩ := Option.map_eq_some_iff.mp h
  refine .erase hstore ?_ rfl
  simp only [Audit.step, hstore] at hw
  split at hw
  · rename_i heq
    cases heq
    obtain rfl := Option.some.inj hw
    rfl
  · cases hw

theorem Change.of_step (h : step cfg s e = some t) : Change s e t := by
  by_cases hcommitted : e = .attempt .committed
  · subst hcommitted
    cases hstore : s.writer.store with
    | none => simp [step, hstore, Audit.step] at h
    | some store => exact .of_committed hstore h
  · by_cases hreset : e = .reset true
    · subst hreset
      cases hstore : s.writer.store with
      | none => simp [step, hstore, Audit.step] at h
      | some store => exact .of_reset hstore h
    · rw [step_eq hcommitted hreset] at h
      obtain ⟨writer, hw, rfl⟩ := Option.map_eq_some_iff.mp h
      obtain ⟨hfiles, hledger, hnext⟩ := effect_keeps (Effect.of_step hw) hcommitted hreset
      exact .keep hfiles rfl hledger hnext

/-- The counter of an attached store is one beyond its largest id. -/
def Numbered (w : AuditWriter AuditItem) : Prop :=
  ∀ store, w.store = some store → w.nextId = (w.files store).nextId

def Ordered (w : AuditWriter AuditItem) : Prop :=
  List.Sublist (w.ledger.committed.map Prod.snd ++ w.batch ++ w.queue) w.ledger.accepted

/-- From one state to another a store gets items, with the ids behind its own. -/
def Continues (k : ℕ) (s t : Stored) : Prop :=
  ∃ items, ofStore k t.writer.ledger.committed = ofStore k s.writer.ledger.committed ++ items ∧
    (t.writer.files k).rows =
      (s.writer.files k).rows ++ buildBatch items (s.writer.files k).nextId ∧
    (t.payloads k).rows = (s.payloads k).rows ++ buildPayloads items (s.writer.files k).nextId

theorem Continues.refl (k : ℕ) (s : Stored) : Continues k s s :=
  ⟨[], (List.append_nil _).symm, (List.append_nil _).symm, (List.append_nil _).symm⟩

theorem Continues.of_eq {k : ℕ} (hfiles : t.writer.files k = s.writer.files k)
    (hpayloads : t.payloads k = s.payloads k)
    (hcommitted : ofStore k t.writer.ledger.committed = ofStore k s.writer.ledger.committed) :
    Continues k s t :=
  ⟨[], by rw [hcommitted, List.append_nil], by rw [hfiles]; exact (List.append_nil _).symm,
    by rw [hpayloads]; exact (List.append_nil _).symm⟩

theorem Continues.trans {k : ℕ} (h : Continues k s t) (h' : Continues k t u) : Continues k s u := by
  obtain ⟨items, hcommitted, hrows, hpayloads⟩ := h
  obtain ⟨items', hcommitted', hrows', hpayloads'⟩ := h'
  have hnext := nextId_of_rows hrows
  refine ⟨items ++ items', ?_, ?_, ?_⟩
  · rw [hcommitted', hcommitted, List.append_assoc]
  · rw [hrows', hrows, hnext, buildBatch_append, List.append_assoc]
  · rw [hpayloads', hpayloads, hnext, buildPayloads_append, List.append_assoc]

theorem numbered_start (files : ℕ → Table AuditItem) (store : ℕ) :
    Numbered (Audit.start files store) := by
  rintro k hk
  cases hk
  rfl

theorem numbered_step {w w' : AuditWriter AuditItem} (hw : Numbered w)
    (h : Audit.step cfg w e = some w') : Numbered w' := by
  have heffect := Effect.of_step h
  generalize hcore : w'.core = core at heffect
  have hfiles : w'.files = core.files := congrArg Core.files hcore
  have hstore : w'.store = core.store := congrArg Core.store hcore
  have hnext : w'.nextId = core.nextId := congrArg Core.nextId hcore
  intro k hk
  rw [hstore] at hk
  rw [hfiles, hnext]
  cases heffect with
  | @commit store table hattached ht =>
    have heq : some k = some store := hk.symm.trans hattached
    cases heq
    have hrows := Table.rows_of_insertAll ht
    rw [hw k hattached] at hrows
    have hlast := nextId_of_rows hrows
    show w.nextId + w.batch.length = (Function.update w.files k table k).nextId
    rw [Function.update_self, hlast, hw k hattached]
  | @erase store hattached =>
    have heq : some k = some store := hk.symm.trans hattached
    cases heq
    show 1 = (Function.update w.files k Table.empty k).nextId
    rw [Function.update_self]
    rfl
  | attach store =>
    cases hk
    rfl
  | detach => cases hk
  | discard =>
    have hsame : w.discardStep.files = w.files ∧ w.discardStep.store = w.store ∧
        w.discardStep.nextId = w.nextId := by
      unfold AuditWriter.discardStep
      split <;> exact ⟨rfl, rfl, rfl⟩
    exact (hsame.2.2.trans (hw k (hsame.2.1.symm.trans hk))).trans
      (congrArg (fun files : ℕ → Table AuditItem ↦ (files k).nextId) hsame.1.symm)
  | _ => exact hw k hk

theorem ordered_start (files : ℕ → Table AuditItem) (store : ℕ) :
    Ordered (Audit.start files store) := List.Sublist.refl _

theorem ordered_step {w w' : AuditWriter AuditItem} (hw : Ordered w)
    (h : Audit.step cfg w e = some w') : Ordered w' := by
  have heffect := Effect.of_step h
  generalize hcore : w'.core = core at heffect
  have hledger : w'.ledger = core.ledger := congrArg Core.ledger hcore
  have hbatch : w'.batch = core.batch := congrArg Core.batch hcore
  have hqueue : w'.queue = core.queue := congrArg Core.queue hcore
  rw [Ordered, hledger, hbatch, hqueue]
  rw [Ordered] at hw
  cases heffect with
  | accept _ item =>
    show List.Sublist (w.ledger.committed.map Prod.snd ++ w.batch ++ (w.queue ++ [item]))
      (w.ledger.accepted ++ [item])
    rw [← List.append_assoc]
    exact hw.append (.refl _)
  | @receive _ item queue hq =>
    rw [hq] at hw
    show List.Sublist (w.ledger.committed.map Prod.snd ++ (w.batch ++ [item]) ++ queue) _
    rw [← List.append_assoc, List.append_assoc, List.singleton_append]
    exact hw
  | @commit store table =>
    have hmap : (w.batch.map fun item ↦ (store, item)).map Prod.snd = w.batch := by
      rw [List.map_map]
      exact List.map_id _
    show List.Sublist ((w.ledger.committed ++ w.batch.map fun item ↦ (store, item)).map Prod.snd ++
      [] ++ w.queue) _
    rw [List.map_append, hmap, List.append_nil]
    exact hw
  | dropBatch =>
    refine List.Sublist.trans ?_ hw
    exact ((List.sublist_append_left _ _).append_left _).append_right _
  | discard =>
    unfold AuditWriter.discardStep
    split
    · rename_i item queue hq
      rw [hq] at hw
      exact ((List.sublist_cons_self _ _).append_left _).trans hw
    · exact (((List.nil_sublist _).append_left _).append_right _).trans hw
  | exit =>
    refine List.Sublist.trans ?_ hw
    exact ((List.nil_sublist _).append_left _).append (List.nil_sublist _)
  | _ => exact hw

theorem continues_commit {k store : ℕ} {records : Table AuditItem} {payloads : Table Row}
    (hs : Numbered s.writer) (hstore : s.writer.store = some store)
    (hexecute : executeBatch (s.writer.files store) (s.payloads store) s.writer.batch
      s.writer.nextId = some (records, payloads))
    (hcore : t.writer.core = (s.writer.commit store records).core)
    (hpayloads : t.payloads = Function.update s.payloads store payloads) : Continues k s t := by
  obtain ⟨hr, hp⟩ := executeBatch_eq_some hexecute
  have hfiles : t.writer.files = Function.update s.writer.files store records :=
    congrArg Core.files hcore
  have hledger : t.writer.ledger.committed =
      s.writer.ledger.committed ++ s.writer.batch.map fun item ↦ (store, item) :=
    congrArg (fun core ↦ core.ledger.committed) hcore
  by_cases hk : k = store
  · subst hk
    have hnext := hs k hstore
    refine ⟨s.writer.batch, ?_, ?_, ?_⟩
    · rw [hledger, ofStore_append, ofStore_self]
    · rw [hfiles, Function.update_self, Table.rows_of_insertAll hr, hnext]
    · rw [hpayloads, Function.update_self, Table.rows_of_insertAll hp, hnext]
  · refine .of_eq ?_ ?_ ?_
    · rw [hfiles, Function.update_of_ne hk]
    · rw [hpayloads, Function.update_of_ne hk]
    · rw [hledger, ofStore_append, ofStore_ne (Ne.symm hk), List.append_nil]

theorem continues_step {k : ℕ} (hs : Numbered s.writer) (h : step cfg s e = some t)
    (herase : ¬(e = .reset true ∧ s.writer.store = some k)) : Continues k s t := by
  obtain ⟨hfiles, hpayloads, hcommitted, -⟩ | ⟨hstore, hexecute, hcore, hpayloads⟩ |
    ⟨hstore, hcore, hpayloads⟩ := Change.of_step h
  · exact .of_eq (by rw [hfiles]) (by rw [hpayloads]) (by rw [hcommitted])
  · exact continues_commit hs hstore hexecute hcore hpayloads
  · rename_i store
    have hk : k ≠ store := by
      rintro rfl
      exact herase ⟨rfl, hstore⟩
    have hfiles : t.writer.files = Function.update s.writer.files store .empty :=
      congrArg Core.files hcore
    have hledger : t.writer.ledger.committed = s.writer.ledger.committed :=
      congrArg (fun core ↦ core.ledger.committed) hcore
    refine .of_eq ?_ ?_ ?_
    · rw [hfiles, Function.update_of_ne hk]
    · rw [hpayloads, Function.update_of_ne hk]
    · rw [hledger]

theorem keeps_of_not_committed (h : step cfg s e = some t)
    (hcommitted : t.writer.ledger.committed = s.writer.ledger.committed)
    (hattach : e ≠ .opened true) (hreset : e ≠ .reset true) :
    t.writer.nextId = s.writer.nextId ∧ ∀ k, (t.writer.files k).rows = (s.writer.files k).rows ∧
      (t.payloads k).rows = (s.payloads k).rows := by
  obtain ⟨hfiles, hpayloads, -, hnext⟩ | ⟨hstore, hexecute, hcore, hpayloads⟩ | - :=
    Change.of_step h
  · exact ⟨hnext.resolve_right hattach, fun k ↦ by rw [hfiles, hpayloads]; exact ⟨rfl, rfl⟩⟩
  · rename_i store records payloads
    have hledger : t.writer.ledger.committed =
        s.writer.ledger.committed ++ s.writer.batch.map fun item ↦ (store, item) :=
      congrArg (fun core ↦ core.ledger.committed) hcore
    rw [hcommitted, List.self_eq_append_right, List.map_eq_nil_iff] at hledger
    obtain ⟨hr, hp⟩ := executeBatch_eq_some hexecute
    rw [hledger] at hr hp
    have hrecords := (Table.rows_of_insertAll hr).trans (List.append_nil _)
    have hrows := (Table.rows_of_insertAll hp).trans (List.append_nil _)
    have hfiles : t.writer.files = Function.update s.writer.files store records :=
      congrArg Core.files hcore
    have hnext : t.writer.nextId = s.writer.nextId + s.writer.batch.length :=
      congrArg Core.nextId hcore
    rw [hledger, List.length_nil] at hnext
    refine ⟨by omega, fun k ↦ ?_⟩
    rw [hfiles, hpayloads]
    by_cases hk : k = store
    · subst hk
      rw [Function.update_self, Function.update_self]
      exact ⟨hrecords, hrows⟩
    · rw [Function.update_of_ne hk, Function.update_of_ne hk]
      exact ⟨rfl, rfl⟩
  · exact absurd rfl hreset

/-- From any state of a run on, a store gets records with the ids behind its largest one and a
payload for each of them under the same id, as long as it is not reset; the items come in the
order they were accepted in, the counter of an attached store is its next id, and a batch that
fails leaves counter and tables. -/
theorem committed_ids_consecutive {cfg : WriterConfig} {files : ℕ → Table AuditItem}
    {payloads : ℕ → Table Row} {store : ℕ} {tr tr' : List (Stored × Event AuditItem)}
    {s t : Stored} (h : Path (step cfg) (start files payloads store) tr s)
    (h' : Path (step cfg) s tr' t) {k : ℕ}
    (herase : ∀ p ∈ tr', ¬(p.2 = .reset true ∧ p.1.writer.store = some k)) :
    (∃ items,
      ofStore k t.writer.ledger.committed = ofStore k s.writer.ledger.committed ++ items ∧
      (t.writer.files k).rows =
        (s.writer.files k).rows ++ buildBatch items (s.writer.files k).nextId ∧
      (t.payloads k).rows =
        (s.payloads k).rows ++ buildPayloads items (s.writer.files k).nextId) ∧
      List.Sublist (t.writer.ledger.committed.map Prod.snd) t.writer.ledger.accepted ∧
      (t.writer.store = some k → t.writer.nextId = (t.writer.files k).nextId) ∧
      ∀ e u, step cfg t e = some u →
        u.writer.ledger.committed = t.writer.ledger.committed → e ≠ .opened true →
        e ≠ .reset true → u.writer.nextId = t.writer.nextId ∧
          ∀ j, (u.writer.files j).rows = (t.writer.files j).rows ∧
            (u.payloads j).rows = (t.payloads j).rows := by
  have hstart : ∀ {tr : List (Stored × Event AuditItem)} {s : Stored},
      Path (step cfg) (start files payloads store) tr s → Numbered s.writer ∧ Ordered s.writer := by
    intro tr s hp
    refine hp.invariant_all (P := fun s ↦ Numbered s.writer ∧ Ordered s.writer)
      ⟨numbered_start files store, ordered_start files store⟩ ?_
    intro s e t hs hstep
    obtain ⟨e', hwriter⟩ := step_writer hstep
    exact ⟨numbered_step hs.1 hwriter, ordered_step hs.2 hwriter⟩
  have hcontinues : Continues k s t ∧ Numbered t.writer := by
    refine h'.invariant (P := fun t ↦ Continues k s t ∧ Numbered t.writer) (fun s e ↦ ¬(e = .reset true ∧ s.writer.store = some k)) herase
      ⟨.refl k s, (hstart h).1⟩ ?_
    intro s' e t' hs hok hstep
    obtain ⟨e', hwriter⟩ := step_writer hstep
    exact ⟨hs.1.trans (continues_step hs.2 hstep hok), numbered_step hs.2 hwriter⟩
  have hall := hstart (h.append h')
  have hsublist : List.Sublist (t.writer.ledger.committed.map Prod.snd)
      (t.writer.ledger.committed.map Prod.snd ++ t.writer.batch ++ t.writer.queue) := by
    rw [List.append_assoc]
    exact List.sublist_append_left _ _
  exact ⟨hcontinues.1, hsublist.trans hall.2, hcontinues.2 k, fun e u hstep ↦
    keeps_of_not_committed hstep⟩

def emptyItem : AuditItem :=
  logRequest strict none ⟨⟨true, true⟩, ⟨true, true⟩, ⟨true, true⟩⟩ ⟨"", "", ""⟩

theorem committed_ids_consecutive_retried :
    ∃ tr t, Path (step oneRow) (start (fun _ ↦ .empty) (fun _ ↦ .empty) 0) tr t ∧
      (t.writer.store = some 0 → t.writer.nextId = (t.writer.files 0).nextId) ∧
      (t.writer.files 0).rows.map Prod.fst = [1] := by
  let events : List (Event AuditItem) :=
    [.enqueue emptyItem, .recv, .attempt .failed, .enqueue emptyItem, .recv, .attempt .committed]
  have hrun : ∃ r, trace (step oneRow) (start (fun _ ↦ .empty) (fun _ ↦ .empty) 0) events =
      some r ∧ (r.2.writer.files 0).rows.map Prod.fst = [1] := ⟨_, rfl, rfl⟩
  obtain ⟨r, hr, hids⟩ := hrun
  have hpath := Path.of_trace hr
  have herase : ∀ p ∈ r.1, ¬(p.2 = .reset true ∧ p.1.writer.store = some 0) := by
    intro p hp
    have hevent : p.2 ∈ events := trace_labels hr ▸ List.mem_map_of_mem hp
    simp only [events, List.mem_cons, List.not_mem_nil, or_false] at hevent
    rintro ⟨hreset, -⟩
    simp [hreset] at hevent
  exact ⟨r.1, r.2, hpath, (committed_ids_consecutive .nil hpath herase).2.2.1, hids⟩

end Stored

end QueQiao.Audit
