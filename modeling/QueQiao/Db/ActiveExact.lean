import QueQiao.Db.StoreInvariant

namespace QueQiao.Aggregate

open Lib.Transition

variable (localDayMs : Calendar)

def Exact (s : System) : Prop :=
  s.rollup.tables = aggregate localDayMs ((s.records s.active).take s.rollup.lastId)

/-- When the last run has returned `Ok`, the tables are exact. -/
def ExactWhenDone (s : System) : Prop := s.pc = .idle true → Exact localDayMs s

def Event.NoRotation : Event → Prop
  | .rename | .create _ | .swap => False
  | _ => True

structure ActiveInv (identity : Identity) (s : System) : Prop where
  identity_eq : s.identity 0 = identity
  active : s.active = 0
  path : s.path = some 0
  maxRead : ∀ store maxId, s.pc = .maxRead store maxId → store = 0
  own_run : ∀ identity', s.pc.identity = some identity' → identity' = identity
  own_state : s.rollup.Of identity
  store : StoreInv localDayMs s 0

section Invariant

variable {localDayMs} {identity : Identity}

theorem activeInv_init (identity : Identity) (records : List Record) :
    ActiveInv localDayMs identity (.init identity records) where
  identity_eq := rfl
  active := rfl
  path := rfl
  maxRead := nofun
  own_run := nofun
  own_state := nofun
  store := ⟨rfl, nofun⟩

theorem ActiveInv.fileIdentity_eq {s : System} (h : ActiveInv localDayMs identity s) :
    fileIdentity s = identity := by
  rw [fileIdentity, h.path]
  exact h.identity_eq

theorem step_noRotation {s t : System} {e : Event} (hop : e.NoRotation)
    (hs : step localDayMs s e = some t) :
    t.active = s.active ∧ t.path = s.path ∧ ∀ store, t.identity store = s.identity store := by
  have hrun (he : e.IsRun) :
      t.active = s.active ∧ t.path = s.path ∧ ∀ store, t.identity store = s.identity store := by
    obtain ⟨hstores, hactive, hpath, -⟩ := step_run he hs
    exact ⟨hactive, hpath, fun store ↦ by rw [System.identity, hstores, System.identity]⟩
  cases Stepped.of_step hs with
  | rename | create | swap => exact hop.elim
  | insert r => exact ⟨rfl, rfl, identity_modify s s.active r⟩
  | _ => exact hrun trivial

theorem activeInv_step {s t : System} {e : Event} (h : ActiveInv localDayMs identity s)
    (hop : e.NoRotation) (hs : step localDayMs s e = some t) (hok : MaxIdCovers localDayMs s e) :
    ActiveInv localDayMs identity t := by
  obtain ⟨hactive, hpath, hidentity⟩ := step_noRotation hop hs
  refine ⟨(hidentity 0).trans h.identity_eq, hactive.trans h.active, hpath.trans h.path,
    fun store maxId hpc ↦ ?_, fun identity' hpc ↦ ?_, fun state hsome ↦ ?_, ?_⟩
  · rcases step_maxRead hs hpc with hbefore | hle
    · exact h.maxRead store maxId hbefore
    · exact Nat.le_zero.mp (h.active ▸ hle)
  · rcases step_identity hs hpc with hbefore | hread
    · exact h.own_run identity' hbefore
    · exact hread.symm.trans h.fileIdentity_eq
  · rcases step_state hs hsome with hbefore | hrun
    · exact h.own_state state hbefore
    · exact h.own_run state.identity hrun
  · have hrun (he : e.IsRun) : StoreInv localDayMs t 0 :=
      h.store.run_step he hs hok fun store maxId hpc _ ↦ ⟨h.maxRead store maxId hpc, h.path⟩
    cases e with
    | insert r => exact h.store.insert hs
    | rename => exact hop.elim
    | create identity' => exact hop.elim
    | swap => exact hop.elim
    | _ => exact hrun trivial

theorem ActiveInv.scanned {s : System} (h : ActiveInv localDayMs identity s) {run : Run}
    {cursor : ℕ} {delta : Delta} (hpc : s.pc = .scanned run cursor delta) :
    run.store = 0 ∧ run.maxId ≤ cursor ∧
      ScanInv localDayMs (s.records 0) s.rollup.tables run cursor delta := by
  have hinv := h.store.pc
  rw [hpc, h.identity_eq] at hinv
  have hown : run.identity = identity := h.own_run run.identity (by rw [hpc]; rfl)
  rcases hinv with hforeign | ⟨hrun, hcursor, hscan⟩
  · exact absurd hown hforeign.run
  · exact ⟨hrun.store_eq, hcursor, hscan⟩

theorem not_exactWhenDone {s t : System} {e : Event} (h : ActiveInv localDayMs identity s)
    (hs : step localDayMs s e = some t) (hbad : ¬MaxIdCovers localDayMs s e) :
    ¬ExactWhenDone localDayMs t := by
  cases Stepped.of_step hs with
  | @apply run cursor delta hpc =>
    obtain ⟨hstore, hcursor, hscan⟩ := h.scanned hpc
    simp only [MaxIdCovers, hpc, hstore, not_forall] at hbad
    obtain ⟨r, hr, hday⟩ := hbad
    obtain ⟨day, hday⟩ := Option.ne_none_iff_exists'.mp hday
    intro hexact
    have htables : s.rollup.tables + delta.tables =
        aggregate localDayMs ((s.records 0).take run.maxId) := by
      have hdone := hexact rfl
      rwa [Exact, h.active] at hdone
    have hcount := congrArg (fun t : DayTables ↦ (t.dayAgg day).rowsAll)
      (hscan.tables_add.symm.trans htables)
    simp only [aggregate_rowsAll] at hcount
    have hsplit := List.take_append_drop run.maxId ((s.records 0).take cursor)
    rw [List.take_take, Nat.min_eq_left hcursor] at hsplit
    rw [← hsplit, List.countP_append] at hcount
    have hpos : 0 < (((s.records 0).take cursor).drop run.maxId).countP
        fun r ↦ decide (r.day localDayMs = some day) :=
      List.countP_pos_iff.mpr ⟨r, hr, by simpa using hday⟩
    omega
  | _ => exact absurd trivial hbad

end Invariant

/-- In a run of inserts and of `ensure_active` the tables are exact whenever a run has
returned `Ok`, exactly when no run saves its delta with an uncovered record in it. -/
theorem exactWhenDone_iff (identity : Identity) (records : List Record)
    {tr : List (System × Event)} {s : System}
    (h : Path (step localDayMs) (.init identity records) tr s)
    (hops : ∀ p ∈ tr, p.2.NoRotation) :
    Always (ExactWhenDone localDayMs) tr s ↔ ∀ p ∈ tr, MaxIdCovers localDayMs p.1 p.2 := by
  refine h.always_iff_of (ActiveInv localDayMs identity) Event.NoRotation hops
    (activeInv_init identity records) (fun s hs hdone ↦ ?_)
    (fun s e t hs hop hst hok ↦ activeInv_step hs hop hst hok)
    (fun s e t hs _ hst hbad ↦ not_exactWhenDone hs hst hbad)
  have hpc := hs.store.pc
  rw [hdone, hs.identity_eq] at hpc
  rw [Exact, hs.active]
  exact hpc rfl hs.own_state

def oneRecord : List Event :=
  [.insert (recordAt 5), .begin 0, .readIdentity, .check, .scan, .apply]

theorem exactWhenDone_iff_one :
    ∃ tr s, Path (step utcDay) (.init (1, 1) []) tr s ∧ s.rollup.lastId = 1 ∧
      Always (ExactWhenDone utcDay) tr s := by
  have hrun : (trace (step utcDay) (.init (1, 1) []) oneRecord).map
      (fun r ↦ (r.2.rollup.lastId, r.1.all fun p ↦ decide (MaxIdCovers utcDay p.1 p.2))) =
        some (1, true) := by
    decide +kernel
  obtain ⟨⟨tr, s⟩, hr, hs⟩ := Option.map_eq_some_iff.mp hrun
  obtain ⟨hlast, hcovers⟩ := Prod.mk.inj hs
  refine ⟨tr, s, Path.of_trace hr, hlast,
    (exactWhenDone_iff utcDay (1, 1) [] (Path.of_trace hr) fun p hp ↦ ?_).mpr fun p hp ↦ ?_⟩
  · have hl : p.2 ∈ oneRecord := trace_labels hr ▸ List.mem_map_of_mem hp
    simp only [oneRecord, List.mem_cons, List.not_mem_nil, or_false] at hl
    rcases hl with hl | hl | hl | hl | hl | hl <;> simp [hl, Event.NoRotation]
  · simpa using List.all_eq_true.mp hcovers p hp

def Pc.returnedOk : Pc → Bool
  | .idle returnedOk => returnedOk
  | _ => false

theorem Pc.returnedOk_iff {pc : Pc} : pc.returnedOk = true ↔ pc = .idle true := by
  cases pc <;> simp [Pc.returnedOk]

def lateRecord : List Event :=
  [.insert (recordAt 5), .begin 0, .readIdentity, .check, .insert (recordAt 6), .scan, .apply]

/-- The run returns `Ok` with both records in the tables and one under the saved id. And where a
run scans the first of three records and another the rest, the float in the tables is not that of
the three. -/
theorem late_record_counted :
    (∃ tr s, Path (step utcDay) (.init (1, 1) []) tr s ∧ (∀ p ∈ tr, p.2.NoRotation) ∧
      s.rollup.lastId = 1 ∧ (s.rollup.tables.dayAgg 0).rowsAll = 2 ∧
      ¬ExactWhenDone utcDay s) ∧
    RoundsApart [[tenths 5 1], [tenths 6 2, tenths 7 3]]
      [[tenths 5 1, tenths 6 2, tenths 7 3]] := by
  refine ⟨?_, roundsApart_of_ne (by decide +kernel) (.refl _)⟩
  have hrun : (trace (step utcDay) (.init (1, 1) []) lateRecord).map
      (fun r ↦ (r.2.rollup.lastId, (r.2.rollup.tables.dayAgg 0).rowsAll,
        ((aggregate utcDay ((r.2.records r.2.active).take r.2.rollup.lastId)).dayAgg 0).rowsAll,
        r.2.pc.returnedOk)) = some (1, 2, 1, true) := by
    decide +kernel
  obtain ⟨⟨tr, s⟩, hr, hs⟩ := Option.map_eq_some_iff.mp hrun
  simp only [Prod.mk.injEq] at hs
  obtain ⟨hlast, hrows, hexact, hpc⟩ := hs
  refine ⟨tr, s, Path.of_trace hr, fun p hp ↦ ?_, hlast, hrows, fun h ↦ ?_⟩
  · have hl : p.2 ∈ lateRecord := trace_labels hr ▸ List.mem_map_of_mem hp
    simp only [lateRecord, List.mem_cons, List.not_mem_nil, or_false] at hl
    rcases hl with hl | hl | hl | hl | hl | hl | hl <;> simp [hl, Event.NoRotation]
  · rw [← h (Pc.returnedOk_iff.mp hpc), hrows] at hexact
    exact absurd hexact (by decide)

end QueQiao.Aggregate
