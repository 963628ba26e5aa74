import QueQiao.Db.ActiveMonth
import QueQiao.Handlers.MetricsAlone
import QueQiao.Handlers.RollupDates

namespace QueQiao.MetricsApi

open Lib.Aggregation Lib.Transition Aggregate AnalysisApi ActiveMonth

/-- What a query reads of the application: the clock, the month that it is in and where it starts,
and the month of the active store. -/
def Environment.reading (env : Environment) (months : Months) (s : AppState Row) : Environment :=
  { env with
    nowMs := s.clock
    currentMonth := months.yyyymm s.clock
    monthStart := months.monthStart
    activeMonth := s.activeYyyymm }

/-- The query without bounds of an active shard that is taken for complete has the rows of the
query between the two times of the range. -/
def AnswersWhole (env : Environment) (months : Months) (s : AppState Row) : Prop :=
  ∀ (contents : Contents) (filters : MetricFilters) (fromMs toMs : ℤ), contents.active = s.rows →
    shardIsComplete (env.reading months s) (activeShard (env.reading months s) contents) fromMs toMs =
      true →
    (buildFiltersFor filters fromMs toMs true).select
        (activeShard (env.reading months s) contents).input =
      (buildFiltersFor filters fromMs toMs false).select
        (activeShard (env.reading months s) contents).input

section Run

variable {env : Environment} {months : Months} {s : AppState Row} {shard : MetricShard}
  {fromMs toMs : ℤ}

theorem select_none_of_inside {p : AnalysisParams} {shard : ShardInput}
    (h : ∀ r ∈ shard.rows, ∀ t, r.timeMs = some t → fromMs ≤ t ∧ t ≤ toMs) :
    shard.select p none = shard.select p (some (fromMs, toMs)) := by
  refine List.filter_congr fun r hr ↦ ?_
  congr 1
  cases htime : r.timeMs with
  | none => rfl
  | some t =>
    obtain ⟨hfrom, hto⟩ := h r hr t htime
    simp only [inside, Option.any_some, Option.isSome_some, decide_eq_true hfrom,
      decide_eq_true hto, Bool.and_self]

/-- The active shard is complete for ranges from the start of its month, or from before that, to
the present. -/
theorem shardIsComplete_active (hactive : shard.input.isActive = true)
    (h : shardIsComplete env shard fromMs toMs = true) : ∃ month start, shard.activeMonth = some month ∧
      month = env.currentMonth ∧ env.monthStart month = some start ∧ fromMs ≤ start ∧
        env.nowMs ≤ toMs := by
  rw [shardIsComplete, ShardInput.covered, hactive, Bool.not_true, Bool.false_and, Bool.false_and,
    Bool.or_false, Bool.true_and, Bool.and_eq_true, decide_eq_true_eq, activeMonthCovered, hactive,
    Bool.true_and, Option.any_eq_true] at h
  obtain ⟨hto, month, hmonth, hcovered⟩ := h
  rw [Bool.and_eq_true, Bool.and_eq_true, decide_eq_true_eq, Option.any_eq_true] at hcovered
  obtain ⟨⟨hcurrent, start, hstart, hfrom⟩, -⟩ := hcovered
  exact ⟨month, start, hmonth, hcurrent, hstart, of_decide_eq_true hfrom, hto⟩

theorem nodup_onlyActive :
    ("active" :: ([] : List ArchiveContents).map ArchiveContents.id).Nodup :=
  List.nodup_singleton _

theorem durations_onlyActive : ∀ archive ∈ ([] : List ArchiveContents), ∀ r ∈ archive.rows,
    ∀ v, r.latencyMs = some v → 0 ≤ v :=
  fun _ h ↦ absurd h List.not_mem_nil

def onlyActive (rows : List Row) : Contents where
  active := rows
  activeTables := fun _ ↦ none
  archives := []
  nodup := nodup_onlyActive
  durations := durations_onlyActive

/-- In the month of the store no row is from before its start or from after the clock. -/
def RowsInMonth (months : Months) (s : AppState Row) : Prop :=
  ∀ start, s.activeYyyymm = months.yyyymm s.clock →
    months.monthStart s.activeYyyymm = some start →
      ∀ r ∈ s.rows, ∀ t, r.timeMs = some t → start ≤ t ∧ t ≤ s.clock

theorem RowsInMonth.answersWhole (h : RowsInMonth months s) : AnswersWhole env months s := by
  intro contents filters fromMs toMs hactive hcomplete
  obtain ⟨month, start, hmonth, hcurrent, hstart, hfrom, hto⟩ :=
    shardIsComplete_active rfl hcomplete
  obtain rfl := Option.some.inj hmonth
  refine select_none_of_inside fun r hr t htime ↦ ?_
  obtain ⟨hle, hclock⟩ := h start hcurrent hstart r (hactive ▸ hr) t htime
  exact ⟨hfrom.trans hle, hclock.trans hto⟩

theorem answersWhole_iff (hclock : IsI64 s.clock) :
    AnswersWhole env months s ↔ RowsInMonth months s := by
  constructor
  · intro h start hcurrent hstart r hr t htime
    have hcomplete : shardIsComplete (env.reading months s)
        (activeShard (env.reading months s) (onlyActive s.rows)) start s.clock = true := by
      have hrecent : saturate (s.clock - 5000) ≤ s.clock := by
        simp only [IsI64, i64Min, i64Max] at hclock
        simp only [saturate, i64Min, i64Max]
        omega
      simp [shardIsComplete, activeMonthCovered, activeShard, Environment.reading, onlyActive,
        ← hcurrent, hstart, hrecent]
    have hselect := h (onlyActive s.rows) {} start s.clock rfl hcomplete
    have hwhole : r ∈ (buildFiltersFor {} start s.clock true).select
        (activeShard (env.reading months s) (onlyActive s.rows)).input := by
      refine List.mem_filter.mpr ⟨hr, ?_⟩
      simp only [buildFiltersFor, if_true, htime, Option.isSome_some, Bool.true_and]
      exact matches_of_supports rfl r
    rw [hselect] at hwhole
    obtain ⟨-, hwithin⟩ := List.mem_filter.mp hwhole
    have hinside := (Bool.and_eq_true_iff.mp hwithin).1
    simpa only [buildFiltersFor, Bool.false_eq_true, if_false, inside, htime, Option.any_some,
      Bool.and_eq_true, decide_eq_true_eq] using hinside
  · exact RowsInMonth.answersWhole

/-- In a run that starts with a store of its month, in which the clock does not go back, no record
is enqueued that is from before the active month and no month becomes the active one that begins
after a record of the store or the queue, the active shard that is taken for complete is so. -/
theorem answersWhole_run (env : Environment) (months : Months) (cfg : Audit.WriterConfig)
    {clock : ℤ} {table : Audit.Table Row} {ok : Bool}
    {tr : List (AppState Row × ActiveMonth.Event Row)} {s : AppState Row}
    (hstart : startsCurrent months (·.timeMs) clock table ok = true)
    (h : Path (ActiveMonth.step months (·.timeMs) cfg) (start months (·.timeMs) clock table ok) tr s)
    (hok : ∀ p ∈ tr, p.1.keepsMonth months (·.timeMs) p.2 = true) : AnswersWhole env months s := by
  have hcurrent := current_run h (current_start hstart) hok
  refine RowsInMonth.answersWhole fun start _ hmonth r hr t htime ↦ ?_
  have hheld : r ∈ s.held := List.mem_append_left _ hr
  have hnotBefore := hcurrent.month r hheld
  rw [notBefore, htime, Option.all_some, hmonth, Option.all_some] at hnotBefore
  exact ⟨of_decide_eq_true hnotBefore, hcurrent.held r hheld t htime⟩

def autumn : Months where
  yyyymm ms := if ms < 1790812800000 then 202609 else 202610
  yyyymmFromMs ms := if ms < 1790812800000 then some 202609 else some 202610
  monthStart month :=
    if month = 202609 then some 1788220800000
    else if month = 202610 then some 1790812800000
    else none
  nextMonthBoundaryMs month := if month = 202609 then 1790812800000 else 1793491200000

def defaults : Audit.WriterConfig := ⟨200, 10000⟩

def september : AppState Row := start autumn (·.timeMs) 1790812799999 .empty true

def lastOfSeptember : Row := answered 1790812799999

def firstOfOctober : Row := answered 1790812800000

/-- A record of October rotates the store, with the steps of the writer up to its seal. -/
def rotation (sealing : List (ActiveMonth.Event Row)) : List (ActiveMonth.Event Row) :=
  [.tick 1790812800000, .arrive firstOfOctober, .lock 0, .command] ++ sealing ++
    [.writer (.checkpoint true), .rename true, .initDb .ok, .command, .writer (.opened true),
      .finish]

def logFirst : List (ActiveMonth.Event Row) :=
  [.enqueue 0, .writer .recv, .writer .timer, .writer (.attempt .committed)]

def inTime : List (ActiveMonth.Event Row) :=
  [.arrive lastOfSeptember, .pass 0, .enqueue 0] ++
    rotation [.writer .drain, .writer .drain, .writer (.attempt .committed)] ++
      logFirst

/-- A record of September passes the check of the month, and is enqueued after the rotation. -/
def tooLate : List (ActiveMonth.Event Row) :=
  [.arrive lastOfSeptember, .pass 0] ++ rotation [.writer .drain] ++ logFirst

def runOf (events : List (ActiveMonth.Event Row)) :
    Option (List (AppState Row × ActiveMonth.Event Row) × AppState Row) :=
  trace (ActiveMonth.step autumn (·.timeMs) defaults) september events

theorem answersWhole_run_inTime : ∃ tr s,
    Path (ActiveMonth.step autumn (·.timeMs) defaults) september tr s ∧ s.rows = [firstOfOctober] ∧
      s.activeYyyymm = 202610 ∧ AnswersWhole february autumn s := by
  have hrun : (runOf inTime).map (fun r ↦ (r.2.rows, r.2.activeYyyymm,
      r.1.all fun p ↦ p.1.keepsMonth autumn (·.timeMs) p.2)) =
        some ([firstOfOctober], 202610, true) := by
    decide +kernel
  obtain ⟨⟨tr, s⟩, hr, hs⟩ := Option.map_eq_some_iff.mp hrun
  simp only [Prod.mk.injEq] at hs
  obtain ⟨hrows, hmonth, hok⟩ := hs
  exact ⟨tr, s, Path.of_trace hr, hrows, hmonth,
    answersWhole_run february autumn defaults rfl (Path.of_trace hr) (List.all_eq_true.mp hok)⟩

theorem late_record_answered : ∃ tr s,
    Path (ActiveMonth.step autumn (·.timeMs) defaults) september tr s ∧
      s.rows = [lastOfSeptember] ∧ ¬ AnswersWhole february autumn s := by
  have hrun : (runOf tooLate).map (fun r ↦ (r.2.rows, r.2.activeYyyymm, r.2.clock)) =
      some ([lastOfSeptember], 202610, 1790812800000) := by
    decide +kernel
  obtain ⟨⟨tr, s⟩, hr, hs⟩ := Option.map_eq_some_iff.mp hrun
  simp only [Prod.mk.injEq] at hs
  obtain ⟨hrows, hmonth, hclock⟩ := hs
  refine ⟨tr, s, Path.of_trace hr, hrows, fun h ↦ ?_⟩
  have hi64 : IsI64 s.clock := by
    rw [hclock]
    decide
  have hin := (answersWhole_iff hi64).mp h 1790812800000 (by rw [hmonth, hclock]; rfl)
    (by rw [hmonth]; rfl) lastOfSeptember (hrows ▸ List.mem_singleton_self _) 1790812799999 rfl
  omega

end Run

end QueQiao.MetricsApi
