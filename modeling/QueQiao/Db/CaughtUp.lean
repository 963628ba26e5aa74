import QueQiao.Db.StoreInvariant

namespace QueQiao.Aggregate

open Lib.Transition

def Record.within (r : Record) (neededMs : ℤ) : Bool := r.timeMs.any (· ≤ neededMs)

/-- `active_caught_up`, asked with the handle of a store. -/
def activeCaughtUp (s : System) (store : ℕ) (neededMs : ℤ) : Bool :=
  match s.rollup.state with
  | none => false
  | some state => decide (neededMs ≤ state.maxTimeMs) ||
      !((s.records store).drop state.lastId).any (·.within neededMs)

variable (localDayMs : Calendar)

/-- The day tables of an archive, whose file `build` scans from the first record to the last. -/
def archiveTables (s : System) (store : ℕ) : DayTables := aggregate localDayMs (s.records store)

/-- The day tables of the active shard hold the records of the active store at the positions
`counted` and no others, those with a time up to the bound once; and so they do together with
the tables of the archives. -/
structure CountsOnce (s : System) (neededMs : ℤ) (counted : List ℕ) : Prop where
  tables_eq : s.rollup.tables =
    aggregate localDayMs (counted.filterMap ((s.records s.active)[·]?))
  once : ∀ i r, (s.records s.active)[i]? = some r → r.within neededMs = true →
    r.day localDayMs ≠ none ∧ counted.count i = 1
  with_archives : ∀ archives : List ℕ,
    (archives.map (archiveTables localDayMs s)).sum + s.rollup.tables =
      aggregate localDayMs
        (archives.flatMap s.records ++ counted.filterMap ((s.records s.active)[·]?))

/-- The store of a run that has not read the identity of the file yet. -/
def Pc.unidentified : Pc → Option ℕ
  | .maxRead store _ => some store
  | _ => none

/-- A run reads the identity of the file of its own store, a new file has neither the saved
identity nor that of the run, and a scan is covered by the id of its run. -/
def Uncrossed (s : System) : Event → Prop
  | .create identity => (∀ state ∈ s.rollup.state, state.identity ≠ identity) ∧
      ∀ identity' ∈ s.pc.identity, identity' ≠ identity
  | .readIdentity => ∀ store ∈ s.pc.unidentified, s.path = some store
  | .apply => MaxIdCovers localDayMs s .apply
  | _ => True

instance (s : System) : (e : Event) → Decidable (Uncrossed localDayMs s e)
  | .create _ => instDecidableAnd
  | .readIdentity => Option.decidableForallMem _
  | .apply => instDecidableMaxIdCovers localDayMs s .apply
  | .insert _ | .rename | .swap | .begin _ | .check | .clear | .clearFails _ | .scan | .fail =>
    instDecidableTrue

/-- The query is about the active store, a run would not clear the tables, and no record that
waits for the next run is hidden by the saved time. -/
structure Describes (s : System) (store : ℕ) (neededMs : ℤ) : Prop where
  store_eq : store = s.active
  kept : mustClear (s.records store) (s.records store).length (s.identity store) s.rollup = false
  not_hidden : ∀ r ∈ (s.records store).drop s.rollup.lastId, r.within neededMs = true →
    s.rollup.maxTimeMs < neededMs
  day : ∀ r ∈ s.records store, r.within neededMs = true → r.day localDayMs ≠ none

def System.Live (s : System) (store : ℕ) : Prop := store = s.active ∨ s.path = some store

structure CaughtUpInv (s : System) : Prop where
  path : PathInv s
  maxRead : ∀ store maxId, s.pc = .maxRead store maxId → store ≤ s.active
  store : ∀ store, s.Live store → StoreInv localDayMs s store

section Invariant

variable {localDayMs} {s t : System} {store : ℕ} {e : Event}

theorem caughtUpInv_init (identity : Identity) (records : List Record) :
    CaughtUpInv localDayMs (.init identity records) where
  path := pathInv_init identity records
  maxRead := nofun
  store := fun _ _ ↦ ⟨rfl, nofun⟩

theorem StoreInv.congr (h : StoreInv localDayMs s store) (hrollup : t.rollup = s.rollup)
    (hpc : t.pc = s.pc) (hidentity : t.identity store = s.identity store)
    (hrecords : t.records store = s.records store) : StoreInv localDayMs t store := by
  obtain ⟨hstate, hinv⟩ := h
  rw [← hrollup, ← hidentity, ← hrecords] at hstate hinv
  rw [← hpc] at hinv
  exact ⟨hstate, hinv⟩

theorem StoreInv.new {identity : Identity} (hidentity : t.identity store = identity)
    (hrecords : t.records store = []) (htables : t.rollup.state = none → t.rollup.tables = 0)
    (hstate : ∀ state, t.rollup.state = some state → state.identity ≠ identity)
    (hread : ∀ maxId, t.pc ≠ .maxRead store maxId)
    (hrun : ∀ identity', t.pc.identity = some identity' → identity' ≠ identity) :
    StoreInv localDayMs t store := by
  have hinv : StateInv localDayMs identity [] t.rollup := by
    rw [StateInv]
    split
    · rename_i hnone
      exact htables hnone
    · rename_i state hsome
      exact fun hid ↦ absurd hid (hstate state hsome)
  have hforeign {identity' : Identity} (hid : t.pc.identity = some identity') :
      Foreign identity t.rollup identity' := ⟨hrun identity' hid, hstate⟩
  refine ⟨by rwa [hidentity, hrecords], ?_⟩
  rw [hidentity, hrecords]
  cases hpc : t.pc with
  | idle returnedOk =>
    intro _ hof
    exact hinv.tables_eq hof fun state hsome ↦ absurd (hof state hsome) (hstate state hsome)
  | maxRead store' maxId =>
    rintro rfl
    exact absurd hpc (hread maxId)
  | identityRead store' maxId identity' => exact .inl (hforeign (by rw [hpc]; rfl))
  | clearing run => exact .inl (hforeign (by rw [hpc]; rfl))
  | scanning run cursor delta => exact .inl (hforeign (by rw [hpc]; rfl))
  | scanned run cursor delta => exact .inl (hforeign (by rw [hpc]; rfl))

theorem CaughtUpInv.create {identity : Identity} (h : CaughtUpInv localDayMs s)
    (hs : step localDayMs s (.create identity) = some t)
    (hok : Uncrossed localDayMs s (.create identity)) (hlive : t.Live store) :
    StoreInv localDayMs t store := by
  obtain ⟨hstate, hrun⟩ := hok
  cases Stepped.of_step hs
  have hlt := h.path.active_lt
  have hactive := h.store s.active (.inl rfl)
  rcases hlive with rfl | hnew
  · exact hactive.congr rfl rfl (identity_append s _ hlt) (records_append s _ hlt)
  · cases hnew
    refine StoreInv.new (by simp [System.identity]) (by simp [System.records])
      (fun hnone ↦ ?_) hstate (fun maxId hpc ↦ ?_) hrun
    · have hinv := hactive.state
      rwa [StateInv, hnone] at hinv
    · have hle := h.maxRead _ maxId hpc
      omega

theorem CaughtUpInv.run_step (h : CaughtUpInv localDayMs s) (hrun : e.IsRun)
    (hs : step localDayMs s e = some t) (hok : Uncrossed localDayMs s e) (hlive : t.Live store) :
    StoreInv localDayMs t store := by
  obtain ⟨-, hactive, hpath, -⟩ := step_run hrun hs
  rw [System.Live, hactive, hpath] at hlive
  have hcovers : MaxIdCovers localDayMs s e := by
    cases e with
    | apply => exact hok
    | _ => exact trivial
  refine (h.store store hlive).run_step hrun hs hcovers fun store' maxId hpc hread ↦ ?_
  subst hread
  have hpath' : s.path = some store' := hok store' (by rw [hpc]; rfl)
  have hle := h.maxRead store' maxId hpc
  have hself : store' = store := by
    rcases hlive with rfl | hsome
    · exact hle.antisymm (h.path.path_some hpath').1
    · exact Option.some.inj (hpath'.symm.trans hsome)
  exact ⟨hself, hself ▸ hpath'⟩

theorem caughtUpInv_step (h : CaughtUpInv localDayMs s) (hs : step localDayMs s e = some t)
    (hok : Uncrossed localDayMs s e) : CaughtUpInv localDayMs t := by
  refine ⟨pathInv_step h.path hs, fun store maxId hpc ↦ ?_, fun store hlive ↦ ?_⟩
  · have hle : store ≤ s.active := (step_maxRead hs hpc).elim (h.maxRead store maxId) id
    exact hle.trans (step_active_le h.path hs)
  · have hrun (he : e.IsRun) : StoreInv localDayMs t store := h.run_step he hs hok hlive
    cases Stepped.of_step hs with
    | insert r => exact (h.store store hlive).insert hs
    | rename => exact (h.store store (.inl (hlive.resolve_right (by simp)))).congr rfl rfl rfl rfl
    | create identity => exact h.create hs hok hlive
    | swap hpath =>
      have hpath' : s.path = some store := hlive.elim (fun heq ↦ heq ▸ hpath) id
      exact (h.store store (.inr hpath')).congr rfl rfl rfl rfl
    | _ => exact hrun trivial

theorem filterMap_range (l : List Record) (n : ℕ) :
    (List.range n).filterMap (l[·]?) = l.take n := by
  induction n with
  | zero => rfl
  | succ n ih =>
    rw [List.range_succ, List.filterMap_append, ih, List.take_add_one]
    cases h : l[n]? <;> simp [h]

theorem sum_archiveTables (s : System) (archives : List ℕ) :
    (archives.map (archiveTables localDayMs s)).sum =
      aggregate localDayMs (archives.flatMap s.records) := by
  induction archives with
  | nil => rfl
  | cons store archives ih =>
    rw [List.map_cons, List.sum_cons, List.flatMap_cons, aggregate_append, ih]
    rfl

theorem CaughtUpInv.countsOnce {neededMs : ℤ} (h : CaughtUpInv localDayMs s)
    (hdescribes : Describes localDayMs s store neededMs)
    (hcaught : activeCaughtUp s store neededMs = true) :
    CountsOnce localDayMs s neededMs (List.range s.rollup.lastId) := by
  obtain ⟨rfl, hkept, hhidden, hday⟩ := hdescribes
  obtain ⟨hof, hnot⟩ := mustClear_eq_false hkept
  have htables := (h.store s.active (.inl rfl)).state.tables_eq hof hnot
  rw [← filterMap_range] at htables
  refine ⟨htables, fun i r hget hwithin ↦ ⟨hday r (List.mem_of_getElem? hget) hwithin, ?_⟩,
    fun archives ↦ ?_⟩
  · refine List.count_eq_one_of_mem List.nodup_range (List.mem_range.mpr ?_)
    by_contra hge
    have hlater : r ∈ (s.records s.active).drop s.rollup.lastId := by
      refine List.mem_of_getElem? (i := i - s.rollup.lastId) ?_
      rw [List.getElem?_drop, Nat.add_sub_cancel' (not_lt.mp hge)]
      exact hget
    have hlt := hhidden r hlater hwithin
    rw [activeCaughtUp] at hcaught
    split at hcaught
    · cases hcaught
    · rename_i state hsome
      simp only [Rollup.lastId, Rollup.maxTimeMs, hsome, Option.map_some, Option.getD_some]
        at hlater hlt
      simp only [Bool.or_eq_true, decide_eq_true_eq, not_le.mpr hlt, false_or, Bool.not_eq_true',
        List.any_eq_false] at hcaught
      exact hcaught r hlater hwithin
  · rw [sum_archiveTables, aggregate_append]
    exact congrArg (_ + ·) htables

theorem CountsOnce.rowsAll {neededMs : ℤ} {counted : List ℕ}
    (h : CountsOnce localDayMs s neededMs counted) (day : ℤ) :
    (s.rollup.tables.dayAgg day).rowsAll =
      (counted.filterMap ((s.records s.active)[·]?)).countP
        fun r ↦ decide (r.day localDayMs = some day) := by
  rw [h.tables_eq, aggregate_rowsAll]

end Invariant

/-- In every state of a run of inserts, rotations and `ensure_active` whose steps do not cross,
a query about the state's own store that is answered with yes finds each record counted once. -/
theorem caughtUp_countsOnce (identity : Identity) (records : List Record)
    {tr : List (System × Event)} {s : System}
    (h : Path (step localDayMs) (.init identity records) tr s)
    (hok : ∀ p ∈ tr, Uncrossed localDayMs p.1 p.2) {store : ℕ} {neededMs : ℤ}
    (hdescribes : Describes localDayMs s store neededMs)
    (hcaught : activeCaughtUp s store neededMs = true) :
    ∃ counted, CountsOnce localDayMs s neededMs counted := by
  have hinv : CaughtUpInv localDayMs s := h.invariant (Uncrossed localDayMs) hok
    (caughtUpInv_init identity records) fun s e t hs hl hst ↦ caughtUpInv_step hs hst hl
  exact ⟨_, hinv.countsOnce hdescribes hcaught⟩

/-- One record is rolled up, the store is rotated away, and a record of the next store is rolled
up in its place. -/
def rotatedRun : List Event :=
  [.insert (recordAt 5), .begin 0, .readIdentity, .check, .scan, .apply, .rename, .create (1, 2),
    .swap, .insert (recordAt 7), .begin 1, .readIdentity, .check, .clear, .scan, .apply]

theorem caughtUp_countsOnce_rotated :
    ∃ tr s, Path (step utcDay) (.init (1, 1) []) tr s ∧ activeCaughtUp s 1 7 = true ∧
      ∃ counted, CountsOnce utcDay s 7 counted := by
  have hrun : (trace (step utcDay) (.init (1, 1) []) rotatedRun).map
      (fun r ↦ (r.2.active, r.2.records 1, r.2.rollup.state, activeCaughtUp r.2 1 7,
        mustClear (r.2.records 1) (r.2.records 1).length (r.2.identity 1) r.2.rollup,
        r.1.all fun p ↦ decide (Uncrossed utcDay p.1 p.2))) =
      some (1, [recordAt 7], some ⟨1, 7, 7, (1, 2)⟩, true, false, true) := by
    decide +kernel
  obtain ⟨⟨tr, s⟩, hr, hs⟩ := Option.map_eq_some_iff.mp hrun
  simp only [Prod.mk.injEq] at hs
  obtain ⟨hactive, hrecords, hstate, hcaught, hkept, hok⟩ := hs
  have hdescribes : Describes utcDay s 1 7 := by
    refine ⟨hactive.symm, hkept, fun r hr _ ↦ ?_, fun r hr _ ↦ ?_⟩
    · simp [hrecords, Rollup.lastId, hstate] at hr
    · rw [hrecords, List.mem_singleton] at hr
      rw [hr]
      decide
  exact ⟨tr, s, Path.of_trace hr, hcaught, caughtUp_countsOnce utcDay (1, 1) [] (Path.of_trace hr)
    (fun p hp ↦ by simpa using List.all_eq_true.mp hok p hp) hdescribes hcaught⟩

def archivedRun : List Event := rotatedRun.take 9

theorem archived_record_counted :
    ∃ tr s, Path (step utcDay) (.init (1, 1) []) tr s ∧ s.active = 1 ∧
      activeCaughtUp s s.active 5 = true ∧ ¬∃ counted, CountsOnce utcDay s 5 counted := by
  have hrun : (trace (step utcDay) (.init (1, 1) []) archivedRun).map
      (fun r ↦ (r.2.active, r.2.records 1, activeCaughtUp r.2 1 5,
        (r.2.rollup.tables.dayAgg 0).rowsAll)) = some (1, [], true, 1) := by
    decide +kernel
  obtain ⟨⟨tr, s⟩, hr, hs⟩ := Option.map_eq_some_iff.mp hrun
  simp only [Prod.mk.injEq] at hs
  obtain ⟨hactive, hrecords, hcaught, hrows⟩ := hs
  refine ⟨tr, s, Path.of_trace hr, hactive, hactive ▸ hcaught, fun ⟨counted, h⟩ ↦ ?_⟩
  have hcount := h.rowsAll 0
  rw [hrows, hactive, hrecords] at hcount
  simp at hcount

def lateTimestamp : List Event :=
  [.insert (recordAt 86400005), .begin 0, .readIdentity, .check, .scan, .apply,
    .insert (recordAt 5)]

theorem late_timestamp_hidden :
    ∃ tr s, Path (step utcDay) (.init (1, 1) []) tr s ∧
      activeCaughtUp s s.active 86400005 = true ∧
      ¬∃ counted, CountsOnce utcDay s 86400005 counted := by
  have hrun : (trace (step utcDay) (.init (1, 1) []) lateTimestamp).map
      (fun r ↦ (r.2.active, r.2.records 0, activeCaughtUp r.2 0 86400005,
        (r.2.rollup.tables.dayAgg 0).rowsAll)) =
      some (0, [recordAt 86400005, recordAt 5], true, 0) := by
    decide +kernel
  obtain ⟨⟨tr, s⟩, hr, hs⟩ := Option.map_eq_some_iff.mp hrun
  simp only [Prod.mk.injEq] at hs
  obtain ⟨hactive, hrecords, hcaught, hrows⟩ := hs
  refine ⟨tr, s, Path.of_trace hr, hactive ▸ hcaught, fun ⟨counted, h⟩ ↦ ?_⟩
  have hget : (s.records s.active)[1]? = some (recordAt 5) := by
    rw [hactive, hrecords]
    rfl
  have hone := (h.once 1 (recordAt 5) hget (by decide)).2
  have hmem : 1 ∈ counted := List.count_pos_iff.mp (by omega)
  have hcount := h.rowsAll 0
  rw [hrows] at hcount
  have hnone := List.countP_eq_zero.mp hcount.symm (recordAt 5)
    (List.mem_filterMap.mpr ⟨1, hmem, hget⟩)
  exact hnone (by decide)

end QueQiao.Aggregate
