import QueQiao.Db.Aggregate
import QueQiao.Lib.Transition
import Mathlib.Data.Finset.Card

namespace QueQiao.Aggregate

open Lib.Transition

/-- Device and inode of a file; `(0, 0)` where there is no file. -/
abbrev Identity := ℤ × ℤ

structure ActiveState where
  lastId : ℕ
  maxTimeMs : ℤ
  lastTimeMs : ℤ
  identity : Identity
  deriving DecidableEq, Repr

structure Rollup where
  state : Option ActiveState
  tables : DayTables

def Rollup.lastId (rollup : Rollup) : ℕ := (rollup.state.map (·.lastId)).getD 0
def Rollup.maxTimeMs (rollup : Rollup) : ℤ := (rollup.state.map (·.maxTimeMs)).getD 0

/-- An audit database: the identity of its file and its records, which have the ids from 1
on. -/
structure AuditStore where
  identity : Identity
  records : List Record

/-- The locals of a run of `ensure_active` once it has read the rollup. -/
structure Run where
  store : ℕ
  maxId : ℕ
  identity : Identity
  lastId : ℕ
  maxTimeMs : ℤ

/-- Where the run that holds the build lock stands. After a run, whether it returned `Ok`. -/
inductive Pc
  | idle (returnedOk : Bool)
  | maxRead (store maxId : ℕ)
  | identityRead (store maxId : ℕ) (identity : Identity)
  | clearing (run : Run)
  | scanning (run : Run) (cursor : ℕ) (delta : Delta)
  | scanned (run : Run) (cursor : ℕ) (delta : Delta)

def Pc.identity : Pc → Option Identity
  | .idle _ | .maxRead _ _ => none
  | .identityRead _ _ identity => some identity
  | .clearing run | .scanning run _ _ | .scanned run _ _ => some run.identity

/-- All stores in the order of their creation, the one that requests use, the one whose file
stands at the audit path, and whether the writer is sealed. -/
structure System where
  stores : List AuditStore
  active : ℕ
  path : Option ℕ
  sealed : Bool
  rollup : Rollup
  pc : Pc

def System.init (identity : Identity) (records : List Record) : System where
  stores := [⟨identity, records⟩]
  active := 0
  path := some 0
  sealed := false
  rollup := ⟨none, 0⟩
  pc := .idle false

def System.records (s : System) (store : ℕ) : List Record :=
  (s.stores[store]?.map (·.records)).getD []

def System.identity (s : System) (store : ℕ) : Identity :=
  (s.stores[store]?.map (·.identity)).getD (0, 0)

/-- What can happen next. A rotation renames the file away, creates the next one and swaps the
active store; a run begins with the handle of a store that is or was active and goes on step
by step; `fail` and `clearFails` are the errors it can return with. -/
inductive Event
  | insert (r : Record)
  | rename
  | create (identity : Identity)
  | swap
  | begin (store : ℕ)
  | readIdentity
  | check
  | clear
  | clearFails (n : ℕ)
  | scan
  | apply
  | fail

def AuditStore.insert (r : Record) (store : AuditStore) : AuditStore :=
  { store with records := store.records ++ [r] }

def fileIdentity (s : System) : Identity :=
  -- the metadata of a file that is there can be read
  match s.path with
  | some store => s.identity store
  | none => (0, 0)

/-- `SELECT TimeMs FROM records WHERE id = ?`, with zero for no row and no value. -/
def cursorTime (records : List Record) (id : ℕ) : ℤ :=
  if id = 0 then 0 else ((records[id - 1]?).bind (·.timeMs)).getD 0

def mustClear (records : List Record) (maxId : ℕ) (identity : Identity) (rollup : Rollup) : Bool :=
  let rotated := rollup.state.any fun state ↦
    state.identity != identity ||
      (0 < state.lastId && state.lastTimeMs != 0 &&
        cursorTime records state.lastId != state.lastTimeMs)
  let staleWithoutState := rollup.state.isNone && decide (0 < rollup.tables.days.card)
  rotated || staleWithoutState || decide (maxId < rollup.lastId)

def Run.proceed (run : Run) : Pc :=
  if run.maxId = run.lastId then .idle true
  else .scanning run run.lastId (Delta.init run.lastId)

variable (localDayMs : Calendar)

def scanBatch (records : List Record) (run : Run) (cursor : ℕ) (delta : Delta) : Pc :=
  let rows := selectAfter records cursor buildBatch
  let delta := rows.foldl (Delta.scanRow localDayMs) delta
  let cursor := rows.foldl (fun _ row ↦ row.2) cursor
  if rows.length < buildBatch then .scanned run cursor delta else .scanning run cursor delta

def applyDeltas (run : Run) (delta : Delta) (rollup : Rollup) : Rollup where
  state := some {
    lastId := run.maxId
    maxTimeMs := max run.maxTimeMs delta.maxTimeMs
    lastTimeMs := delta.lastTimeMs
    identity := run.identity }
  tables := rollup.tables + delta.tables

def step (s : System) : Event → Option System
  | .insert r =>
    if s.sealed then none else some { s with stores := s.stores.modify s.active (·.insert r) }
  | .rename =>
    if s.path = some s.active then some { s with path := none, sealed := true } else none
  | .create identity =>
    match s.path with
    | some _ => none
    | none => some { s with
        stores := s.stores ++ [⟨identity, []⟩]
        path := some s.stores.length }
  | .swap =>
    match s.path with
    | some store => some { s with active := store, sealed := false }
    | none => none
  | .begin store =>
    match s.pc with
    | .idle _ =>
      if store ≤ s.active then some { s with pc := .maxRead store (s.records store).length }
      else none
    | _ => none
  | .readIdentity =>
    match s.pc with
    | .maxRead store maxId => some { s with pc := .identityRead store maxId (fileIdentity s) }
    | _ => none
  | .check =>
    match s.pc with
    | .identityRead store maxId identity =>
      let run : Run := ⟨store, maxId, identity, s.rollup.lastId, s.rollup.maxTimeMs⟩
      some { s with
        pc :=
          if mustClear (s.records store) maxId identity s.rollup then .clearing run
          else run.proceed }
    | _ => none
  | .clear =>
    match s.pc with
    | .clearing run => some { s with
        rollup := { s.rollup with tables := s.rollup.tables.clearShard }
        pc := { run with lastId := 0, maxTimeMs := 0 }.proceed }
    | _ => none
  | .clearFails n =>
    match s.pc with
    | .clearing _ => some { s with
        rollup := { s.rollup with tables := s.rollup.tables.clearFirst n }
        pc := .idle false }
    | _ => none
  | .scan =>
    match s.pc with
    | .scanning run cursor delta =>
      some { s with pc := scanBatch localDayMs (s.records run.store) run cursor delta }
    | _ => none
  | .apply =>
    match s.pc with
    | .scanned run _ delta => some { s with
        rollup := applyDeltas run delta s.rollup
        pc := .idle true }
    | _ => none
  | .fail =>
    match s.pc with
    | .idle _ => none
    | _ => some { s with pc := .idle false }

inductive Stepped (localDayMs : Calendar) (s : System) : Event → System → Prop
  | insert (r : Record) (hopened : s.sealed = false) :
      Stepped localDayMs s (.insert r) { s with stores := s.stores.modify s.active (·.insert r) }
  | rename (hpath : s.path = some s.active) :
      Stepped localDayMs s .rename { s with path := none, sealed := true }
  | create (identity : Identity) (hpath : s.path = none) :
      Stepped localDayMs s (.create identity)
        { s with stores := s.stores ++ [⟨identity, []⟩], path := some s.stores.length }
  | swap {store : ℕ} (hpath : s.path = some store) :
      Stepped localDayMs s .swap { s with active := store, sealed := false }
  | begin {store : ℕ} {returnedOk : Bool} (hpc : s.pc = .idle returnedOk)
      (hle : store ≤ s.active) :
      Stepped localDayMs s (.begin store)
        { s with pc := .maxRead store (s.records store).length }
  | readIdentity {store maxId : ℕ} (hpc : s.pc = .maxRead store maxId) :
      Stepped localDayMs s .readIdentity
        { s with pc := .identityRead store maxId (fileIdentity s) }
  | check {store maxId : ℕ} {identity : Identity} (hpc : s.pc = .identityRead store maxId identity) :
      Stepped localDayMs s .check
        { s with
          pc :=
            if mustClear (s.records store) maxId identity s.rollup then
              .clearing ⟨store, maxId, identity, s.rollup.lastId, s.rollup.maxTimeMs⟩
            else Run.proceed ⟨store, maxId, identity, s.rollup.lastId, s.rollup.maxTimeMs⟩ }
  | clear {run : Run} (hpc : s.pc = .clearing run) :
      Stepped localDayMs s .clear
        { s with
          rollup := { s.rollup with tables := s.rollup.tables.clearShard }
          pc := { run with lastId := 0, maxTimeMs := 0 }.proceed }
  | clearFails (n : ℕ) {run : Run} (hpc : s.pc = .clearing run) :
      Stepped localDayMs s (.clearFails n)
        { s with
          rollup := { s.rollup with tables := s.rollup.tables.clearFirst n }
          pc := .idle false }
  | scan {run : Run} {cursor : ℕ} {delta : Delta} (hpc : s.pc = .scanning run cursor delta) :
      Stepped localDayMs s .scan
        { s with pc := scanBatch localDayMs (s.records run.store) run cursor delta }
  | apply {run : Run} {cursor : ℕ} {delta : Delta} (hpc : s.pc = .scanned run cursor delta) :
      Stepped localDayMs s .apply
        { s with rollup := applyDeltas run delta s.rollup, pc := .idle true }
  | fail (hpc : ∀ returnedOk, s.pc ≠ .idle returnedOk) :
      Stepped localDayMs s .fail { s with pc := .idle false }

variable {localDayMs} in
theorem Stepped.of_step {s t : System} {e : Event} (h : step localDayMs s e = some t) :
    Stepped localDayMs s e t := by
  cases e with
  | insert r =>
    simp only [step] at h
    split at h
    · cases h
    · rename_i hopened
      cases h
      exact .insert r (Bool.eq_false_of_not_eq_true hopened)
  | rename =>
    simp only [step] at h
    split at h
    · rename_i hpath
      cases h
      exact .rename hpath
    · cases h
  | create identity =>
    simp only [step] at h
    split at h
    · cases h
    · rename_i hpath
      cases h
      exact .create identity hpath
  | swap =>
    simp only [step] at h
    split at h
    · rename_i hpath
      cases h
      exact .swap hpath
    · cases h
  | begin store =>
    simp only [step] at h
    split at h
    · rename_i hpc
      split at h
      · rename_i hle
        cases h
        exact .begin hpc hle
      · cases h
    · cases h
  | readIdentity =>
    simp only [step] at h
    split at h
    · rename_i hpc
      cases h
      exact .readIdentity hpc
    · cases h
  | check =>
    simp only [step] at h
    split at h
    · rename_i hpc
      cases h
      exact .check hpc
    · cases h
  | clear =>
    simp only [step] at h
    split at h
    · rename_i hpc
      cases h
      exact .clear hpc
    · cases h
  | clearFails n =>
    simp only [step] at h
    split at h
    · rename_i hpc
      cases h
      exact .clearFails n hpc
    · cases h
  | scan =>
    simp only [step] at h
    split at h
    · rename_i hpc
      cases h
      exact .scan hpc
    · cases h
  | apply =>
    simp only [step] at h
    split at h
    · rename_i hpc
      cases h
      exact .apply hpc
    · cases h
  | fail =>
    simp only [step] at h
    split at h
    · cases h
    · rename_i hbusy
      cases h
      exact .fail hbusy

section Scan

variable {localDayMs}

theorem cursorTime_append {records : List Record} {id : ℕ} (h : id ≤ records.length)
    (later : List Record) : cursorTime (records ++ later) id = cursorTime records id := by
  rw [cursorTime, cursorTime]
  split
  · rfl
  · rw [List.getElem?_append_left (by omega)]

/-- What a run has found when it has scanned the records up to `cursor`: the tables hold the
records up to its `last_id`, the delta those from there on. -/
structure ScanInv (localDayMs : Calendar) (records : List Record) (tables : DayTables) (run : Run)
    (cursor : ℕ) (delta : Delta) : Prop where
  lastId_le : run.lastId ≤ cursor
  cursor_le : cursor ≤ records.length
  tables_eq : tables = aggregate localDayMs (records.take run.lastId)
  delta_eq : delta.tables = aggregate localDayMs ((records.take cursor).drop run.lastId)
  lastTime_eq : delta.lastTimeMs = if cursor = run.lastId then 0 else cursorTime records cursor

variable {records : List Record} {tables : DayTables} {run : Run} {cursor : ℕ} {delta : Delta}

theorem ScanInv.start (hle : run.lastId ≤ records.length)
    (htables : tables = aggregate localDayMs (records.take run.lastId)) :
    ScanInv localDayMs records tables run run.lastId (Delta.init run.lastId) where
  lastId_le := le_rfl
  cursor_le := hle
  tables_eq := htables
  delta_eq := by simp [Delta.init, aggregate]
  lastTime_eq := by simp [Delta.init]

theorem ScanInv.append (h : ScanInv localDayMs records tables run cursor delta)
    (later : List Record) : ScanInv localDayMs (records ++ later) tables run cursor delta where
  lastId_le := h.lastId_le
  cursor_le := by
    rw [List.length_append]
    exact h.cursor_le.trans (Nat.le_add_right _ _)
  tables_eq := by
    rw [List.take_append_of_le_length (h.lastId_le.trans h.cursor_le)]
    exact h.tables_eq
  delta_eq := by
    rw [List.take_append_of_le_length h.cursor_le]
    exact h.delta_eq
  lastTime_eq := by
    rw [cursorTime_append h.cursor_le]
    exact h.lastTime_eq

theorem ScanInv.tables_add (h : ScanInv localDayMs records tables run cursor delta) :
    tables + delta.tables = aggregate localDayMs (records.take cursor) := by
  rw [h.tables_eq, h.delta_eq]
  exact aggregate_take_drop records h.lastId_le

theorem selectAfter_length (records : List Record) (cursor n : ℕ) :
    (selectAfter records cursor n).length = min n (records.length - cursor) := by
  simp [selectAfter]

theorem foldl_snd_zipIdx (l : List Record) (c : ℕ) :
    (l.zipIdx (c + 1)).foldl (fun _ row ↦ row.2) c = c + l.length := by
  induction l using List.reverseRecOn with
  | nil => rfl
  | append_singleton l r _ =>
    simp only [List.zipIdx_append, List.foldl_append, List.zipIdx_cons, List.zipIdx_nil,
      List.foldl_cons, List.foldl_nil, List.length_append, List.length_singleton]
    omega

theorem ScanInv.scanBatch (h : ScanInv localDayMs records tables run cursor delta) :
    ∃ cursor' delta', ScanInv localDayMs records tables run cursor' delta' ∧
      (scanBatch localDayMs records run cursor delta = .scanning run cursor' delta' ∨
        (scanBatch localDayMs records run cursor delta = .scanned run cursor' delta' ∧
          cursor' = records.length)) := by
  let rows := (records.drop cursor).take buildBatch
  have hlen : rows.length = min buildBatch (records.length - cursor) := by simp [rows]
  have hle := h.cursor_le
  have hlast := h.lastId_le
  have hrows : rows = (records.take (cursor + rows.length)).drop cursor := by
    rw [List.drop_take, Nat.add_sub_cancel_left, hlen]
    rcases Nat.le_total buildBatch (records.length - cursor) with hb | hb
    · rw [Nat.min_eq_left hb]
    · rw [Nat.min_eq_right hb, List.take_of_length_le (l := records.drop cursor) (by simp)]
      exact List.take_of_length_le (by simpa using hb)
  refine ⟨cursor + rows.length,
    (rows.zipIdx (cursor + 1)).foldl (Delta.scanRow localDayMs) delta, ?_, ?_⟩
  · refine ⟨by omega, by omega, h.tables_eq, ?_, ?_⟩
    · have hsplit : (records.take (cursor + rows.length)).drop run.lastId =
          (records.take cursor).drop run.lastId ++ rows := by
        have htake := List.take_append_drop cursor (records.take (cursor + rows.length))
        rw [List.take_take, Nat.min_eq_left (Nat.le_add_right _ _), ← hrows] at htake
        rw [← htake, List.drop_append_of_le_length (by simp; omega)]
      rw [scanRows_tables, h.delta_eq, hsplit, aggregate_append]
    · rw [scanRows_lastTimeMs]
      rcases Nat.eq_zero_or_pos rows.length with hzero | hpos
      · rw [List.length_eq_zero_iff.mp hzero]
        simpa using h.lastTime_eq
      · have hne : cursor + rows.length ≠ run.lastId := by omega
        have hin : cursor + rows.length - 1 < records.length := by omega
        have hget : rows.getLast? = records[cursor + rows.length - 1]? := by
          have hcut : ¬(records.take (cursor + rows.length)).length ≤ cursor := by
            rw [List.length_take]
            omega
          rw [hrows, List.getLast?_drop, if_neg hcut, List.getLast?_take,
            if_neg (by omega), ← hrows, List.getElem?_eq_getElem hin, Option.some_or]
        rw [if_neg hne, hget, cursorTime, if_neg (by omega), List.getElem?_eq_getElem hin]
        rfl
  · have hcursor : (selectAfter records cursor buildBatch).foldl (fun _ row ↦ row.2) cursor =
        cursor + rows.length := foldl_snd_zipIdx rows cursor
    simp only [Aggregate.scanBatch, hcursor]
    split
    · rename_i hshort
      rw [selectAfter_length] at hshort
      exact .inr ⟨rfl, by omega⟩
    · exact .inl rfl

end Scan

end QueQiao.Aggregate
