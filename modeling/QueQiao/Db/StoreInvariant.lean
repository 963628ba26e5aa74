import QueQiao.Db.Rotation

namespace QueQiao.Aggregate

variable (localDayMs : Calendar)

/-- A run that saves its delta has scanned no record with a local day after the id it read at
its start. -/
def MaxIdCovers (s : System) : Event → Prop
  | .apply =>
    match s.pc with
    | .scanned run cursor _ =>
      ∀ r ∈ ((s.records run.store).take cursor).drop run.maxId, r.day localDayMs = none
    | _ => True
  | _ => True

instance (s : System) (e : Event) : Decidable (MaxIdCovers localDayMs s e) := by
  cases e with
  | apply =>
    simp only [MaxIdCovers]
    cases s.pc <;> infer_instance
  | _ => exact isTrue trivial

/-- The cursor row does not have the time that was saved for it, so that the next run clears
the tables. -/
def Detects (records : List Record) (state : ActiveState) : Prop :=
  0 < state.lastId ∧ state.lastTimeMs ≠ 0 ∧ cursorTime records state.lastId ≠ state.lastTimeMs

def Rollup.Of (identity : Identity) (rollup : Rollup) : Prop :=
  ∀ state, rollup.state = some state → state.identity = identity

/-- A state saved for the store vouches for the tables, or gives itself away. -/
def StateInv (identity : Identity) (records : List Record) (rollup : Rollup) : Prop :=
  match rollup.state with
  | none => rollup.tables = 0
  | some state => state.identity = identity → state.lastId ≤ records.length ∧
      (rollup.tables = aggregate localDayMs (records.take state.lastId) ∨ Detects records state)

structure Foreign (identity : Identity) (rollup : Rollup) (runIdentity : Identity) : Prop where
  run : runIdentity ≠ identity
  state : ∀ state, rollup.state = some state → state.identity ≠ identity

structure RunInv (store : ℕ) (identity : Identity) (records : List Record) (run : Run) : Prop where
  store_eq : run.store = store
  identity_eq : run.identity = identity
  maxId_le : run.maxId ≤ records.length

def CursorLe (identity : Identity) (rollup : Rollup) (maxId : ℕ) : Prop :=
  ∀ state, rollup.state = some state → state.identity = identity → state.lastId ≤ maxId

def PcInv (store : ℕ) (identity : Identity) (records : List Record) (rollup : Rollup) : Pc → Prop
  | .idle returnedOk => returnedOk = true → rollup.Of identity →
      rollup.tables = aggregate localDayMs (records.take rollup.lastId)
  | .maxRead store' maxId =>
    store' = store → maxId ≤ records.length ∧ CursorLe identity rollup maxId
  | .identityRead store' maxId identity' => Foreign identity rollup identity' ∨
      store' = store ∧ identity' = identity ∧ maxId ≤ records.length ∧
        CursorLe identity rollup maxId
  | .clearing run => Foreign identity rollup run.identity ∨
      RunInv store identity records run ∧
        ∀ state, rollup.state = some state → state.identity = identity →
          Detects records state ∧ 0 < run.maxId
  | .scanning run cursor delta => Foreign identity rollup run.identity ∨
      RunInv store identity records run ∧
        ScanInv localDayMs records rollup.tables run cursor delta
  | .scanned run cursor delta => Foreign identity rollup run.identity ∨
      RunInv store identity records run ∧ run.maxId ≤ cursor ∧
        ScanInv localDayMs records rollup.tables run cursor delta

structure StoreInv (s : System) (store : ℕ) : Prop where
  state : StateInv localDayMs (s.identity store) (s.records store) s.rollup
  pc : PcInv localDayMs store (s.identity store) (s.records store) s.rollup s.pc

section Invariant

variable {localDayMs} {store : ℕ} {identity : Identity} {records : List Record} {rollup : Rollup}

theorem Detects.append {state : ActiveState} (h : Detects records state)
    (hle : state.lastId ≤ records.length) (r : Record) : Detects (records ++ [r]) state :=
  ⟨h.1, h.2.1, by rw [cursorTime_append hle]; exact h.2.2⟩

theorem StateInv.append (h : StateInv localDayMs identity records rollup) (r : Record) :
    StateInv localDayMs identity (records ++ [r]) rollup := by
  rw [StateInv] at h ⊢
  split at h
  · exact h
  · intro hid
    obtain ⟨hle, htables⟩ := h hid
    refine ⟨by rw [List.length_append]; omega, ?_⟩
    rw [List.take_append_of_le_length hle]
    exact htables.imp_right fun hd ↦ hd.append hle r

theorem StateInv.lastId_le (h : StateInv localDayMs identity records rollup)
    (hof : rollup.Of identity) : rollup.lastId ≤ records.length := by
  rw [StateInv] at h
  rw [Rollup.lastId]
  split at h
  · rename_i hnone
    simp [hnone]
  · rename_i state hsome
    simpa [hsome] using (h (hof state hsome)).1

theorem RunInv.append {run : Run} (h : RunInv store identity records run) (r : Record) :
    RunInv store identity (records ++ [r]) run where
  store_eq := h.store_eq
  identity_eq := h.identity_eq
  maxId_le := by
    rw [List.length_append]
    exact h.maxId_le.trans (Nat.le_add_right _ _)

theorem PcInv.append {pc : Pc} (h : PcInv localDayMs store identity records rollup pc)
    (hstate : StateInv localDayMs identity records rollup) (r : Record) :
    PcInv localDayMs store identity (records ++ [r]) rollup pc := by
  cases pc with
  | idle returnedOk =>
    intro hok hof
    rw [List.take_append_of_le_length (hstate.lastId_le hof)]
    exact h hok hof
  | maxRead store' maxId =>
    intro hstore
    obtain ⟨hle, hcursor⟩ := h hstore
    exact ⟨by rw [List.length_append]; omega, hcursor⟩
  | identityRead store' maxId identity' =>
    refine h.imp_right fun ⟨hstore, hid, hle, hcursor⟩ ↦ ⟨hstore, hid, ?_, hcursor⟩
    rw [List.length_append]
    omega
  | clearing run =>
    refine h.imp_right fun ⟨hrun, hdetects⟩ ↦ ⟨hrun.append r, fun state hsome hid ↦ ?_⟩
    obtain ⟨hd, hpos⟩ := hdetects state hsome hid
    rw [StateInv, hsome] at hstate
    exact ⟨hd.append (hstate hid).1 r, hpos⟩
  | scanning run cursor delta =>
    exact h.imp_right fun ⟨hrun, hscan⟩ ↦ ⟨hrun.append r, hscan.append [r]⟩
  | scanned run cursor delta =>
    exact h.imp_right fun ⟨hrun, hle, hscan⟩ ↦ ⟨hrun.append r, hle, hscan.append [r]⟩

theorem mustClear_eq_false {maxId : ℕ} (h : mustClear records maxId identity rollup = false) :
    rollup.Of identity ∧ ∀ state, rollup.state = some state → ¬Detects records state := by
  simp only [mustClear, Bool.or_eq_false_iff] at h
  obtain ⟨⟨hrotated, -⟩, -⟩ := h
  refine ⟨fun state hsome ↦ ?_, fun state hsome hd ↦ ?_⟩
  · simp only [hsome, Option.any_some, Bool.or_eq_false_iff, bne_eq_false_iff_eq] at hrotated
    exact hrotated.1
  · simp only [hsome, Option.any_some, Bool.or_eq_false_iff] at hrotated
    have htests := hrotated.2
    simp [hd.1, hd.2.1, hd.2.2] at htests

theorem CursorLe.detects {maxId : ℕ}
    (hcursor : CursorLe identity rollup maxId)
    (hclear : mustClear records maxId identity rollup = true) {state : ActiveState}
    (hsome : rollup.state = some state) (hid : state.identity = identity) :
    Detects records state ∧ 0 < maxId := by
  have hle := hcursor state hsome hid
  have hmax : ¬maxId < rollup.lastId := by
    simp only [Rollup.lastId, hsome, Option.map_some, Option.getD_some]
    omega
  have hd : Detects records state := by
    simpa [mustClear, hsome, hid, Detects, hmax, and_assoc] using hclear
  exact ⟨hd, hd.1.trans_le hle⟩

theorem StateInv.tables_eq (h : StateInv localDayMs identity records rollup)
    (hof : rollup.Of identity)
    (hkeep : ∀ state, rollup.state = some state → ¬Detects records state) :
    rollup.tables = aggregate localDayMs (records.take rollup.lastId) := by
  rw [StateInv] at h
  rw [Rollup.lastId]
  split at h
  · rename_i hnone
    rw [h, hnone]
    rfl
  · rename_i state hsome
    rw [hsome]
    exact (h (hof state hsome)).2.resolve_right (hkeep state hsome)

theorem PcInv.proceed {run : Run} (hrun : RunInv store identity records run)
    (hle : run.lastId ≤ records.length)
    (htables : rollup.tables = aggregate localDayMs (records.take run.lastId))
    (hlast : run.maxId = run.lastId → rollup.Of identity → rollup.lastId = run.lastId) :
    PcInv localDayMs store identity records rollup run.proceed := by
  rw [Run.proceed]
  split
  · rename_i heq
    intro _ hof
    rw [htables, hlast heq hof]
  · exact .inr ⟨hrun, ScanInv.start hle htables⟩

theorem PcInv.proceed_foreign {run : Run} (hforeign : Foreign identity rollup run.identity)
    (hstate : StateInv localDayMs identity records rollup) :
    PcInv localDayMs store identity records rollup run.proceed := by
  rw [Run.proceed]
  split
  · intro _ hof
    refine hstate.tables_eq hof fun state hsome ↦ ?_
    exact absurd (hof state hsome) (hforeign.state state hsome)
  · exact .inl hforeign

theorem StateInv.clearFirst (h : StateInv localDayMs identity records rollup) (n : ℕ)
    (hdetects : ∀ state, rollup.state = some state → state.identity = identity →
      Detects records state) :
    StateInv localDayMs identity records { rollup with tables := rollup.tables.clearFirst n } := by
  rw [StateInv] at h
  rw [StateInv]
  dsimp only
  split at h
  · rw [h]
    exact DayTables.clearFirst_zero n
  · rename_i state hsome
    intro hid
    exact ⟨(h hid).1, .inr (hdetects state hsome hid)⟩

end Invariant

section Step

variable {localDayMs} {s t : System} {store : ℕ} {e : Event}

theorem StoreInv.check {store' maxId : ℕ} {identity : Identity} (h : StoreInv localDayMs s store)
    (hpc : s.pc = .identityRead store' maxId identity) :
    PcInv localDayMs store (s.identity store) (s.records store) s.rollup
      (if mustClear (s.records store') maxId identity s.rollup then
        .clearing ⟨store', maxId, identity, s.rollup.lastId, s.rollup.maxTimeMs⟩
      else Run.proceed ⟨store', maxId, identity, s.rollup.lastId, s.rollup.maxTimeMs⟩) := by
  obtain ⟨hstate, hinv⟩ := h
  rw [hpc] at hinv
  rcases hinv with hforeign | ⟨rfl, rfl, hle, hcursor⟩
  · split
    · exact .inl hforeign
    · exact PcInv.proceed_foreign hforeign hstate
  · split
    · rename_i hclear
      exact .inr ⟨⟨rfl, rfl, hle⟩, fun state hsome hid ↦ hcursor.detects hclear hsome hid⟩
    · rename_i hkeep
      obtain ⟨hof, hnot⟩ := mustClear_eq_false (Bool.eq_false_of_not_eq_true hkeep)
      exact PcInv.proceed ⟨rfl, rfl, hle⟩ (hstate.lastId_le hof) (hstate.tables_eq hof hnot)
        fun _ _ ↦ rfl

theorem StoreInv.clear {run : Run} (h : StoreInv localDayMs s store) (hpc : s.pc = .clearing run)
    (n : ℕ) : StateInv localDayMs (s.identity store) (s.records store)
      { s.rollup with tables := s.rollup.tables.clearFirst n } := by
  obtain ⟨hstate, hinv⟩ := h
  rw [hpc] at hinv
  refine hstate.clearFirst n fun state hsome hid ↦ ?_
  rcases hinv with hforeign | ⟨-, hdetects⟩
  · exact absurd hid (hforeign.state state hsome)
  · exact (hdetects state hsome hid).1

/-- A store keeps its invariant over every step of a run, its own or another store's, if a run
that reads the identity of the file reads that of its own store. -/
theorem StoreInv.run_step (h : StoreInv localDayMs s store) (hrun : e.IsRun)
    (hs : step localDayMs s e = some t) (hok : MaxIdCovers localDayMs s e)
    (hread : ∀ store' maxId, s.pc = .maxRead store' maxId → e = .readIdentity →
      store' = store ∧ s.path = some store) : StoreInv localDayMs t store := by
  have hinv := h.pc
  cases Stepped.of_step hs with
  | insert | rename | create | swap => exact hrun.elim
  | begin =>
    refine ⟨h.state, ?_⟩
    rintro rfl
    refine ⟨le_rfl, fun state hsome hid ↦ ?_⟩
    have hstate := h.state
    rw [StateInv, hsome] at hstate
    exact (hstate hid).1
  | @readIdentity store' maxId hpc =>
    obtain ⟨rfl, hpath⟩ := hread store' maxId hpc rfl
    rw [hpc] at hinv
    have hid : fileIdentity s = s.identity store' := by rw [fileIdentity, hpath]
    exact ⟨h.state, .inr ⟨rfl, hid, hinv rfl⟩⟩
  | check hpc => exact ⟨h.state, h.check hpc⟩
  | clear hpc =>
    have hstate := h.clear hpc 5
    refine ⟨hstate, ?_⟩
    rw [hpc] at hinv
    rcases hinv with hforeign | ⟨hrun, hdetects⟩
    · exact PcInv.proceed_foreign ⟨hforeign.run, hforeign.state⟩ hstate
    · refine PcInv.proceed ⟨hrun.store_eq, hrun.identity_eq, hrun.maxId_le⟩ (Nat.zero_le _)
        (DayTables.clearShard_eq_zero _) fun hzero hof ↦ ?_
      cases hsome : s.rollup.state with
      | none => simp [Rollup.lastId, hsome]
      | some state =>
        have hpos := (hdetects state hsome (hof state hsome)).2
        exact absurd hzero hpos.ne'
  | clearFails n hpc => exact ⟨h.clear hpc n, fun hfalse ↦ by cases hfalse⟩
  | @scan run cursor delta hpc =>
    refine ⟨h.state, ?_⟩
    rw [hpc] at hinv
    show PcInv localDayMs store (s.identity store) (s.records store) s.rollup
      (scanBatch localDayMs (s.records run.store) run cursor delta)
    rcases hinv with hforeign | ⟨hrun, hscan⟩
    · rw [scanBatch]
      split
      · exact .inl hforeign
      · exact .inl hforeign
    · rw [hrun.store_eq]
      obtain ⟨cursor', delta', hscan', hnext | ⟨hnext, hend⟩⟩ := hscan.scanBatch
      · rw [hnext]
        exact .inr ⟨hrun, hscan'⟩
      · rw [hnext]
        exact .inr ⟨hrun, hend ▸ hrun.maxId_le, hscan'⟩
  | @apply run cursor delta hpc =>
    rw [hpc] at hinv
    rcases hinv with hforeign | ⟨hrun, hcursor, hscan⟩
    · refine ⟨fun hid ↦ absurd hid hforeign.run, fun _ hof ↦ ?_⟩
      exact absurd (hof _ rfl) hforeign.run
    · simp only [MaxIdCovers, hpc, hrun.store_eq] at hok
      have htables : s.rollup.tables + delta.tables =
          aggregate localDayMs ((s.records store).take run.maxId) := by
        rw [hscan.tables_add, ← aggregate_take_drop _ hcursor, aggregate_eq_zero hok, add_zero]
      exact ⟨fun _ ↦ ⟨hrun.maxId_le, .inl htables⟩, fun _ _ ↦ htables⟩
  | fail => exact ⟨h.state, fun hfalse ↦ by cases hfalse⟩

def Pc.Follows (next pc : Pc) : Prop :=
  (∀ store maxId, next ≠ .maxRead store maxId) ∧
    (next.identity = none ∨ next.identity = pc.identity)

theorem Run.proceed_follows (run : Run) : run.proceed.Follows (.clearing run) := by
  rw [Run.proceed]
  split
  · exact ⟨by simp, .inl rfl⟩
  · exact ⟨by simp, .inr rfl⟩

theorem scanBatch_follows (records : List Record) (run : Run) (cursor : ℕ) (delta : Delta) :
    (scanBatch localDayMs records run cursor delta).Follows (.scanning run cursor delta) := by
  rw [scanBatch]
  split
  · exact ⟨by simp, .inr rfl⟩
  · exact ⟨by simp, .inr rfl⟩

/-- What a step does to the run: nothing, or it begins one with a store that is or was active,
or it reads the identity of the file, or it takes the run on. -/
theorem step_pc (hs : step localDayMs s e = some t) :
    t.pc = s.pc ∨ (∃ store' maxId, t.pc = .maxRead store' maxId ∧ store' ≤ s.active) ∨
      (∃ store' maxId, t.pc = .identityRead store' maxId (fileIdentity s)) ∨
        t.pc.Follows s.pc := by
  have hidle : ∀ returnedOk, (Pc.idle returnedOk).Follows s.pc := fun _ ↦ ⟨by simp, .inl rfl⟩
  cases Stepped.of_step hs with
  | insert | rename | create | swap => exact .inl rfl
  | begin _ hle => exact .inr (.inl ⟨_, _, rfl, hle⟩)
  | readIdentity => exact .inr (.inr (.inl ⟨_, _, rfl⟩))
  | @check store' maxId identity hpc =>
    rw [hpc]
    refine .inr (.inr (.inr ?_))
    dsimp only
    split
    · exact ⟨by simp, .inr rfl⟩
    · exact Run.proceed_follows ⟨store', maxId, identity, s.rollup.lastId, s.rollup.maxTimeMs⟩
  | @clear run hpc =>
    rw [hpc]
    exact .inr (.inr (.inr (Run.proceed_follows { run with lastId := 0, maxTimeMs := 0 })))
  | @scan run cursor delta hpc =>
    rw [hpc]
    exact .inr (.inr (.inr (scanBatch_follows _ run cursor delta)))
  | clearFails => exact .inr (.inr (.inr (hidle false)))
  | apply => exact .inr (.inr (.inr (hidle true)))
  | fail => exact .inr (.inr (.inr (hidle false)))

theorem step_identity (hs : step localDayMs s e = some t) {identity : Identity}
    (h : t.pc.identity = some identity) :
    s.pc.identity = some identity ∨ fileIdentity s = identity := by
  obtain heq | ⟨store', maxId, heq, -⟩ | ⟨store', maxId, heq⟩ | ⟨-, hnone | hsame⟩ := step_pc hs
  · exact .inl (heq ▸ h)
  · rw [heq] at h
    cases h
  · rw [heq] at h
    exact .inr (Option.some.inj h)
  · rw [hnone] at h
    cases h
  · exact .inl (hsame ▸ h)

theorem step_maxRead (hs : step localDayMs s e = some t) {store' maxId : ℕ}
    (h : t.pc = .maxRead store' maxId) : s.pc = .maxRead store' maxId ∨ store' ≤ s.active := by
  obtain heq | ⟨store'', maxId', heq, hle⟩ | ⟨store'', maxId', heq⟩ | ⟨hnot, -⟩ := step_pc hs
  · exact .inl (heq ▸ h)
  · rw [heq] at h
    cases h
    exact .inr hle
  · rw [heq] at h
    cases h
  · exact absurd h (hnot store' maxId)

theorem step_state (hs : step localDayMs s e = some t) {state : ActiveState}
    (h : t.rollup.state = some state) :
    s.rollup.state = some state ∨ s.pc.identity = some state.identity := by
  cases Stepped.of_step hs with
  | apply hpc =>
    cases h
    rw [hpc]
    exact .inr rfl
  | _ => exact .inl h

theorem StoreInv.insert (h : StoreInv localDayMs s store) {r : Record}
    (hs : step localDayMs s (.insert r) = some t) : StoreInv localDayMs t store := by
  cases Stepped.of_step hs
  obtain ⟨hstate, hpc⟩ := h
  rcases records_modify s s.active r store with hrecords | hrecords
  · refine ⟨?_, ?_⟩
    · rwa [identity_modify, hrecords]
    · rwa [identity_modify, hrecords]
  · refine ⟨?_, ?_⟩
    · rw [identity_modify, hrecords]
      exact hstate.append r
    · rw [identity_modify, hrecords]
      exact hpc.append hstate r

end Step

end QueQiao.Aggregate
