import QueQiao.Db.CaughtUp

namespace QueQiao.Aggregate

open Lib.Transition

/-- The rows of the days from the first to the day before the last. -/
def DayTables.restrict (firstDay endDay : ℤ) (t : DayTables) : DayTables where
  days := t.days.filter fun day ↦ firstDay ≤ day ∧ day < endDay
  dayAgg := fun day ↦ if firstDay ≤ day ∧ day < endDay then t.dayAgg day else 0
  dayDim := fun day dim value ↦
    if firstDay ≤ day ∧ day < endDay then t.dayDim day dim value else 0
  dayDistinct := fun day dim value ↦
    decide (firstDay ≤ day ∧ day < endDay) && t.dayDistinct day dim value
  dayHist := fun day kind bucket ↦
    if firstDay ≤ day ∧ day < endDay then t.dayHist day kind bucket else 0

def readActiveSlice (s : System) (firstDay endDay : ℤ) : Option DayTables :=
  if endDay ≤ firstDay then some 0
  else s.rollup.state.map fun _ ↦ s.rollup.tables.restrict firstDay endDay

structure Unread (s : System) : Prop where
  caughtUp : ∀ store neededMs, activeCaughtUp s store neededMs = false
  slice : ∀ firstDay endDay, firstDay < endDay → readActiveSlice s firstDay endDay = none

def Event.Fails : Event → Prop
  | .clearFails _ | .fail => True
  | _ => False

def Pc.Busy (pc : Pc) : Prop := ∀ returnedOk, pc ≠ .idle returnedOk

instance : (e : Event) → Decidable e.Fails
  | .clearFails _ | .fail => instDecidableTrue
  | .insert _ | .rename | .create _ | .swap | .begin _ | .readIdentity | .check | .clear | .scan
  | .apply => instDecidableFalse

instance : (pc : Pc) → Decidable pc.Busy
  | .idle returnedOk => isFalse fun h ↦ h returnedOk rfl
  | .maxRead _ _ | .identityRead _ _ _ | .clearing _ | .scanning _ _ _ | .scanned _ _ _ =>
    isTrue nofun

variable (localDayMs : Calendar)

/-- A run of `ensure_active` from the state before it up to the error that it returns, and what
happens to the stores in the meantime. -/
structure FailedRun (s : System) (tr : List (System × Event)) (t : System) : Prop where
  path : Path (step localDayMs) s tr t
  begins : ∃ store, tr.head? = some (s, .begin store)
  busy : ∀ p ∈ tr.tail, p.1.pc.Busy
  fails : ∃ p, tr.getLast? = some p ∧ p.2.Fails

def KeepsCover (s : System) : Event → Prop
  | .clear => s.rollup.state = none ∨ s.rollup.tables.clearShard = s.rollup.tables
  | .clearFails n => s.rollup.state = none ∨ s.rollup.tables.clearFirst n = s.rollup.tables
  | _ => True

section Runs

variable {localDayMs} {s t u : System} {tr : List (System × Event)} {e : Event}

theorem unread_iff : Unread s ↔ s.rollup.state = none := by
  constructor
  · intro h
    cases hstate : s.rollup.state with
    | none => rfl
    | some state =>
      have hread := h.slice 0 1 Int.one_pos
      rw [readActiveSlice, hstate] at hread
      cases hread
  · intro hstate
    refine ⟨fun store neededMs ↦ ?_, fun firstDay endDay hlt ↦ ?_⟩
    · rw [activeCaughtUp, hstate]
    · rw [readActiveSlice, if_neg (not_le.mpr hlt), hstate]
      rfl

def Pc.Early : Pc → Prop
  | .maxRead _ _ | .identityRead _ _ _ | .clearing _ => True
  | _ => False

/-- What a run has done to the rollup of the state before it: nothing up to the first step that
deletes, and never anything to the saved state. -/
structure RunSoFar (s : System) (tr : List (System × Event)) (u : System) : Prop where
  state : u.rollup.state = s.rollup.state
  early : u.pc.Early → u.rollup = s.rollup
  kept : (u.rollup = s.rollup ∨ s.rollup.state = none) ↔ ∀ p ∈ tr, KeepsCover p.1 p.2

theorem RunSoFar.begin {store : ℕ} (hs : step localDayMs s (.begin store) = some t) :
    RunSoFar s [(s, .begin store)] t := by
  cases Stepped.of_step hs
  refine ⟨rfl, fun _ ↦ rfl, iff_of_true (.inl rfl) fun p hp ↦ ?_⟩
  rw [List.mem_singleton.mp hp]
  exact trivial

theorem RunSoFar.delete (h : RunSoFar s tr u) (hearly : u.pc.Early) {tables : DayTables} {pc : Pc}
    (hpc : ¬ pc.Early)
    (hkept : KeepsCover u e ↔ u.rollup.state = none ∨ tables = u.rollup.tables) :
    RunSoFar s (tr ++ [(u, e)]) { u with rollup := { u.rollup with tables := tables }, pc := pc } := by
  have hsame := h.early hearly
  have hbefore := h.kept.mp (.inl hsame)
  refine ⟨h.state, fun hpc' ↦ absurd hpc' hpc, ?_⟩
  have hall : (∀ p ∈ tr ++ [(u, e)], KeepsCover p.1 p.2) ↔ KeepsCover u e := by
    simp only [List.forall_mem_append, List.forall_mem_singleton]
    exact and_iff_right hbefore
  rw [hall, hkept, hsame, or_comm]
  refine or_congr Iff.rfl ⟨fun heq ↦ congrArg Rollup.tables heq, fun heq ↦ ?_⟩
  rw [heq]

theorem RunSoFar.keep (h : RunSoFar s tr u) (hrollup : t.rollup = u.rollup)
    (hearly : t.pc.Early → u.pc.Early) (hkept : KeepsCover u e) :
    RunSoFar s (tr ++ [(u, e)]) t := by
  refine ⟨by rw [hrollup, h.state], fun hpc ↦ by rw [hrollup, h.early (hearly hpc)], ?_⟩
  simp only [List.forall_mem_append, List.forall_mem_singleton]
  rw [hrollup, h.kept]
  exact (and_iff_left hkept).symm

theorem Run.proceed_not_early (run : Run) : ¬ run.proceed.Early := by
  rw [Run.proceed]
  split <;> exact id

theorem scanBatch_not_early (records : List Record) (run : Run) (cursor : ℕ) (delta : Delta) :
    ¬ (scanBatch localDayMs records run cursor delta).Early := by
  simp only [scanBatch]
  split <;> exact id

theorem RunSoFar.step (h : RunSoFar s tr u) (hbusy : u.pc.Busy)
    (hs : Aggregate.step localDayMs u e = some t) (hend : t.pc.Busy ∨ e.Fails) :
    RunSoFar s (tr ++ [(u, e)]) t := by
  cases Stepped.of_step hs with
  | insert | rename | create | swap => exact h.keep rfl id trivial
  | begin hpc => exact absurd hpc (hbusy _)
  | readIdentity hpc => exact h.keep rfl (fun _ ↦ by rw [hpc]; trivial) trivial
  | check hpc => exact h.keep rfl (fun _ ↦ by rw [hpc]; trivial) trivial
  | clear hpc => exact h.delete (by rw [hpc]; trivial) (Run.proceed_not_early _) Iff.rfl
  | clearFails n hpc => exact h.delete (by rw [hpc]; trivial) id Iff.rfl
  | scan hpc => exact h.keep rfl (fun hearly ↦ absurd hearly (scanBatch_not_early _ _ _ _)) trivial
  | apply hpc => exact absurd rfl (hend.elim (fun hbusy' ↦ hbusy' true) False.elim)
  | fail hpc => exact h.keep rfl False.elim trivial

theorem runSoFar_of_path {store : ℕ} (hpath : Path (step localDayMs) s tr t)
    (hbegins : tr.head? = some (s, .begin store)) (hbusy : ∀ p ∈ tr.tail, p.1.pc.Busy)
    (hend : t.pc.Busy ∨ ∃ p, tr.getLast? = some p ∧ p.2.Fails) : RunSoFar s tr t := by
  induction hpath with
  | nil => cases hbegins
  | @snoc tr u t e hpath hs ih =>
    cases tr with
    | nil =>
      obtain ⟨rfl, rfl⟩ := Prod.mk.inj (Option.some.inj hbegins)
      exact .begin hs
    | cons p tr =>
      rw [List.cons_append, List.tail_cons] at hbusy
      have hu : u.pc.Busy := hbusy (u, e) (List.mem_append_right _ (List.mem_singleton_self _))
      refine RunSoFar.step (ih hbegins ?_ (.inl hu)) hu hs (hend.imp_right ?_)
      · exact fun q hq ↦ hbusy q (List.mem_append_left _ hq)
      · rintro ⟨q, hlast, hfails⟩
        rw [List.getLast?_append_of_ne_nil _ (List.cons_ne_nil _ _)] at hlast
        cases hlast
        exact hfails

theorem FailedRun.of_trace {store : ℕ} {events : List Event} {r : List (System × Event) × System}
    (h : trace (Aggregate.step localDayMs) s (.begin store :: events) = some r)
    (hbusy : r.1.tail.all (fun p ↦ decide p.1.pc.Busy) = true)
    (hfails : r.1.getLast?.any (fun p ↦ decide p.2.Fails) = true) :
    FailedRun localDayMs s r.1 r.2 := by
  refine ⟨Path.of_trace h, ⟨store, ?_⟩, ?_, ?_⟩
  · obtain ⟨t, rest, -, -, rfl⟩ := trace_cons_eq_some.mp h
    rfl
  · intro p hp
    exact of_decide_eq_true (List.all_eq_true.mp hbusy p hp)
  · obtain ⟨p, hlast, hp⟩ := (Option.any_eq_true _ _).mp hfails
    exact ⟨p, hlast, of_decide_eq_true hp⟩

end Runs

/-- A run that fails has left the rollup as it was, or one that no reader uses, exactly when none
of its steps deletes rows under a saved state. -/
theorem failedRun_kept_iff (s t : System) (tr : List (System × Event))
    (h : FailedRun localDayMs s tr t) :
    t.rollup = s.rollup ∨ Unread t ↔ ∀ p ∈ tr, KeepsCover p.1 p.2 := by
  obtain ⟨store, hbegins⟩ := h.begins
  have hrun := runSoFar_of_path h.path hbegins h.busy (.inr h.fails)
  rw [unread_iff, hrun.state]
  exact hrun.kept

def scanFails : List Event := [.begin 0, .readIdentity, .check, .scan, .fail]

theorem failedRun_kept_iff_scanFails : ∃ (tr : List (System × Event)) (t : System),
    FailedRun utcDay (.init (1, 1) [recordAt 5]) tr t ∧ t.rollup.state = none ∧
      (t.rollup = (System.init (1, 1) [recordAt 5]).rollup ∨ Unread t ↔
        ∀ p ∈ tr, KeepsCover p.1 p.2) := by
  have hrun : (trace (step utcDay) (.init (1, 1) [recordAt 5]) scanFails).map
      (fun r ↦ (r.2.rollup.state, r.1.tail.all fun p ↦ decide p.1.pc.Busy,
        r.1.getLast?.any fun p ↦ decide p.2.Fails)) = some (none, true, true) := by
    decide +kernel
  obtain ⟨⟨tr, t⟩, hr, hs⟩ := Option.map_eq_some_iff.mp hrun
  simp only [Prod.mk.injEq] at hs
  obtain ⟨hstate, hbusy, hfails⟩ := hs
  have hrun := FailedRun.of_trace hr hbusy hfails
  exact ⟨tr, t, hrun, hstate, failedRun_kept_iff utcDay _ t tr hrun⟩

/-- After a rotation the tables of the archived store are cleared under its state. -/
def rotatedStart : List Event := rotatedRun.take 10

def clearedThenFails : List Event := [.begin 1, .readIdentity, .check, .clear, .scan, .fail]

/-- The tables are empty, and the state of the archived store says that they hold the record of the
active one. -/
theorem cleared_tables_reported : ∃ before s run t, Path (step utcDay) (.init (1, 1) []) before s ∧
    FailedRun utcDay s run t ∧ activeCaughtUp t t.active 7 = true ∧
      ¬(t.rollup = s.rollup ∨ Unread t) := by
  have hbefore : (trace (step utcDay) (.init (1, 1) []) rotatedStart).bind (fun r ↦
      (trace (step utcDay) r.2 clearedThenFails).map fun r' ↦
        (r.1.length, (r.2.rollup.tables.dayAgg 0).rowsAll, r'.1.tail.all fun p ↦ decide p.1.pc.Busy,
          r'.1.getLast?.any fun p ↦ decide p.2.Fails, activeCaughtUp r'.2 r'.2.active 7,
          (r'.2.rollup.tables.dayAgg 0).rowsAll)) = some (10, 1, true, true, true, 0) := by
    decide +kernel
  obtain ⟨⟨before, s⟩, hbefore, hafter⟩ := Option.bind_eq_some_iff.mp hbefore
  obtain ⟨⟨run, t⟩, hrun, hs⟩ := Option.map_eq_some_iff.mp hafter
  simp only [Prod.mk.injEq] at hs
  obtain ⟨-, hrows, hbusy, hfails, hcaught, hcleared⟩ := hs
  refine ⟨before, s, run, t, Path.of_trace hbefore, FailedRun.of_trace hrun hbusy hfails, hcaught, ?_⟩
  rintro (hsame | hunread)
  · rw [hsame, hrows] at hcleared
    cases hcleared
  · rw [hunread.caughtUp] at hcaught
    cases hcaught

end QueQiao.Aggregate
