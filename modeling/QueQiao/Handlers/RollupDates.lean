import QueQiao.Handlers.RollupLabels

namespace QueQiao.AnalysisApi

open Lib.Aggregation Lib.Traversal Aggregate

section Dates

variable {zone : Zone} {clock : Clock} {p : AnalysisParams} {fromMs toMs : ℤ}
  {shards : List RollupShard} {interval : Interval}

def dateLabel (zone : Zone) (interval : Interval) (ms : ℤ) : String :=
  (civil (zone.dayNumber ms)).label (interval = .month)

/-- `strftime` with `localtime`: a second that it represents has the label of its local date, any
other is `NULL`. -/
def Clock.LocalDates (clock : Clock) (zone : Zone) : Prop :=
  ∀ interval ≠ .hour, ∀ second label, clock.bucket interval second = some label →
    label = dateLabel zone interval (second * 1000)

/-- The records in the range have a time that `strftime` represents, and those that are counted by
their day have the same local date once the time is cut to seconds. -/
def DatesAgree (zone : Zone) (clock : Clock) (p : AnalysisParams) (fromMs toMs : ℤ)
    (shards : List RollupShard) : Prop :=
  ∀ shard ∈ shards, ∀ r ∈ inWindow (fromMs, toMs) shard.input.rows, ∀ ms, r.timeMs = some ms →
    (clock.bucket (p.step fromMs toMs) (ms.tdiv 1000)).isSome ∧
      ((shard.wholeDays zone fromMs toMs).any (fun days ↦ inside (days.1, days.2 - 1) (some ms)) →
        dateLabel zone (p.step fromMs toMs) ms =
          dateLabel zone (p.step fromMs toMs) (ms.tdiv 1000 * 1000))

theorem label_ne_unknown (date : Date) (month : Bool) : date.label month ≠ "Unknown" := by
  have hyphen : '-' ∈ (date.label month).toList := by
    rw [Date.label]
    cases month <;> simp
  intro h
  rw [h] at hyphen
  revert hyphen
  decide

theorem dayNumber_dayStart (ms : ℤ) : zone.dayNumber (zone.dayStart ms) = zone.dayNumber ms := by
  simp only [Zone.dayStart, Zone.dayNumber, dayLength]
  omega

theorem wholeDays_eq_some {shard : RollupShard} {days : ℤ × ℤ}
    (h : shard.wholeDays zone fromMs toMs = some days) :
    WholeDays zone fromMs toMs days.1 days.2 := by
  rw [RollupShard.wholeDays] at h
  split at h
  · exact wholeDays_of_fullDayBounds (Option.filter_eq_some_iff.mp h).1
  · cases h

theorem dayLabel_eq {firstFull fullEnd ms : ℤ} {r : Row}
    (h : WholeDays zone fromMs toMs firstFull fullEnd) (htime : r.timeMs = some ms)
    (hin : inside (firstFull, fullEnd - 1) (some ms)) :
    dayLabel zone interval r = some (dateLabel zone interval ms) := by
  have hle := zone.dayStart_le ms
  have hfirst := (Zone.le_dayStart_iff ms h.first).mpr
  have hfrom := h.from_le
  have hto := h.le_to
  have hvalidFrom := h.valid_from
  have hvalidTo := h.valid_to
  simp only [inside, Option.any_some, Bool.and_eq_true, decide_eq_true_eq] at hin
  have hvalid : zone.valid (zone.dayStart ms) = true := by
    simp only [Zone.valid, Bool.and_eq_true, decide_eq_true_eq] at hvalidFrom hvalidTo ⊢
    omega
  rw [dayLabel, dayOf, htime, Option.getD_some, Zone.localDayLabel, Zone.single, if_pos hvalid,
    Option.map_some, dayNumber_dayStart]
  rfl

theorem labelsAgree_iff (hclock : clock.LocalDates zone) (hstep : p.step fromMs toMs ≠ .hour) :
    LabelsAgree zone clock p fromMs toMs shards ↔ DatesAgree zone clock p fromMs toMs shards := by
  refine forall₂_congr fun shard _ ↦ forall₂_congr fun r hr ↦ ?_
  have hin := (List.mem_filter.mp hr).2
  cases htime : r.timeMs with
  | none =>
    rw [htime] at hin
    cases hin
  | some ms =>
    rw [rollupLabel, htime, bucketExpr, htime, Option.bind_some]
    simp only [Option.some.injEq, forall_eq']
    cases hday : (shard.wholeDays zone fromMs toMs).any
        fun days ↦ inside (days.1, days.2 - 1) (some ms) with
    | false =>
      simp only [Bool.false_eq_true, if_false, false_implies, and_true, Option.some.injEq]
      cases clock.bucket (p.step fromMs toMs) (ms.tdiv 1000) with
      | none => decide
      | some label => exact iff_of_true rfl rfl
    | true =>
      obtain ⟨days, hdays, hinside⟩ := (Option.any_eq_true _ _).mp hday
      rw [if_pos rfl, dayLabel_eq (wholeDays_eq_some hdays) htime hinside, Option.some.injEq]
      cases hbucket : clock.bucket (p.step fromMs toMs) (ms.tdiv 1000) with
      | none => exact iff_of_false (label_ne_unknown _ _) fun h ↦ Bool.false_ne_true h.1
      | some label =>
        rw [hclock _ hstep _ _ hbucket]
        exact ⟨fun h ↦ ⟨rfl, fun _ ↦ h⟩, fun h ↦ h.2 rfl⟩

theorem dateLabel_second (hoffset : 1000 ∣ zone.offsetMs) {ms : ℤ} (hms : 0 ≤ ms) :
    dateLabel zone interval ms = dateLabel zone interval (ms.tdiv 1000 * 1000) := by
  obtain ⟨seconds, hseconds⟩ := hoffset
  rw [dateLabel, dateLabel, Zone.dayNumber, Zone.dayNumber, dayLength,
    Int.tdiv_eq_ediv_of_nonneg hms]
  congr 2
  omega

theorem datesAgree_of_nonneg (hoffset : 1000 ∣ zone.offsetMs)
    (h : ∀ shard ∈ shards, ∀ r ∈ shard.input.rows, ∀ ms, r.timeMs = some ms →
      0 ≤ ms ∧ (clock.bucket (p.step fromMs toMs) (ms.tdiv 1000)).isSome) :
    DatesAgree zone clock p fromMs toMs shards := by
  intro shard hshard r hr ms hms
  obtain ⟨hnonneg, hsome⟩ := h shard hshard r (List.mem_of_mem_filter hr) ms hms
  exact ⟨hsome, fun _ ↦ dateLabel_second hoffset hnonneg⟩

end Dates

section Result

variable {zone : Zone} {clock : Clock} {p : AnalysisParams} {fromMs toMs : ℤ} {enabled : Bool}
  {shards : List RollupShard} {stores : Stores}

theorem exact_of_sameTimes {shards' : List RollupShard}
    (hstores : shards.map (·.input) = collectShards fromMs toMs stores)
    (hsame : List.Forall₂ SameTimes shards shards') : ∀ shard ∈ shards', shard.input.Exact := by
  intro shard' hshard'
  obtain ⟨shard, hshard, hsame⟩ := exists_of_mem_right hsame hshard'
  have hmem : shard.input ∈ collectShards fromMs toMs stores := by
    rw [← hstores]
    exact List.mem_map_of_mem hshard
  exact hsame.exact (collectShards_exact _ hmem)

variable (zone) in
theorem sameTimes_probes (time : Option ℤ) (shards : List RollupShard) :
    List.Forall₂ SameTimes shards (shards.map (·.probed zone time)) := by
  induction shards with
  | nil => exact .nil
  | cons shard shards ih => exact .cons (sameTimes_probed shard) ih

theorem step_ne_hour {dim : Dim} (h : p.rollupDim fromMs toMs enabled = some dim) :
    p.step fromMs toMs ≠ .hour := by
  intro hstep
  rw [AnalysisParams.rollupDim, hstep] at h
  cases h

/-- Where the fast path agrees with the scan on all errors of one time, it does on the label of
that time. -/
theorem labelsAgree_of_rollupAgrees (hfrom : IsI64 fromMs) (hto : IsI64 toMs) (hle : fromMs ≤ toMs)
    (hstores : shards.map (·.input) = collectShards fromMs toMs stores)
    (hpath : (analyse zone clock p fromMs toMs enabled shards).isSome)
    (h : RollupAgrees zone clock p fromMs toMs enabled shards) :
    LabelsAgree zone clock p fromMs toMs shards := by
  intro shard hshard r hr
  obtain ⟨data, hdata⟩ := Option.isSome_iff_exists.mp hpath
  obtain ⟨data', hdata'⟩ := analyse_probed r.timeMs hdata
  obtain ⟨dim, -, hrollup, -⟩ := analyse_eq_some.mp hdata'
  obtain ⟨hsupports, hdim⟩ := rollupDim_eq_some hrollup
  have hsame := sameTimes_probes zone r.timeMs shards
  have hexact := exact_of_sameTimes hstores hsame
  have huptodate : ∀ s ∈ shards.map (·.probed zone r.timeMs), s.UpToDate zone fromMs toMs := by
    intro s hs
    obtain ⟨s, -, rfl⟩ := List.mem_map.mp hs
    exact upToDate_probed s
  have hnonneg : ∀ s ∈ shards.map (·.probed zone r.timeMs), NonNegative s.input.rows := by
    intro s hs
    obtain ⟨s, -, rfl⟩ := List.mem_map.mp hs
    exact nonNegative_probed s
  have hnames : ∀ s ∈ shards.map (·.probed zone r.timeMs), ∀ x ∈ s.input.rows,
      dimExpr clock (.column dim) x ∈ probeNames := by
    intro s hs x hx
    obtain ⟨s, -, rfl⟩ := List.mem_map.mp hs
    obtain ⟨x, -, rfl⟩ := List.mem_map.mp hx
    exact dimExpr_probe dim x
  have huncapped := dimCapped_analyse hdata' hdim huptodate hnames (by decide)
  have hscan : (scanShards clock p fromMs toMs
      ((shards.map (·.probed zone r.timeMs)).map (·.input))).dimCapped = false := by
    refine dimCapped_scanShards hdim (fun input hinput ↦ ?_) (by decide : probeNames.card ≤ groupCap)
    obtain ⟨s, hs, rfl⟩ := List.mem_map.mp hinput
    exact hnames s hs
  have hinputs : ∀ input ∈ (shards.map (·.probed zone r.timeMs)).map (·.input), input.Exact := by
    intro input hinput
    obtain ⟨s, hs, rfl⟩ := List.mem_map.mp hinput
    exact hexact s hs
  have hadditive := h _ data' hsame huptodate hnonneg hdata' huncapped hscan
  rw [additive_analyse hfrom hto hle hexact huptodate hnonneg hdata' huncapped,
    additive_scanShards hinputs hfrom hto hle hscan, rowsInRange_eq hsupports] at hadditive
  exact labelsAgree_of_trend (congrArg Additive.trend hadditive)
    (fun x hx ↦ congrArg (Option.getD · "Unknown") (bucketExpr_congr hx)) shard hshard r hr rfl

/-- The fast path and the scan have the same sums for every content of the records in the range
exactly where the times of those have the same date in both. -/
theorem rollupAgrees_iff (hclock : clock.LocalDates zone) (hfrom : IsI64 fromMs) (hto : IsI64 toMs)
    (hle : fromMs ≤ toMs) (hstores : shards.map (·.input) = collectShards fromMs toMs stores)
    (hpath : (analyse zone clock p fromMs toMs enabled shards).isSome) :
    RollupAgrees zone clock p fromMs toMs enabled shards ↔
      DatesAgree zone clock p fromMs toMs shards := by
  have hstep : p.step fromMs toMs ≠ .hour := by
    obtain ⟨data, hdata⟩ := Option.isSome_iff_exists.mp hpath
    obtain ⟨dim, -, hrollup, -⟩ := analyse_eq_some.mp hdata
    exact step_ne_hour hrollup
  rw [← labelsAgree_iff hclock hstep]
  constructor
  · exact labelsAgree_of_rollupAgrees hfrom hto hle hstores hpath
  · intro h shards' data hsame huptodate hnonneg hdata huncapped hscan
    exact additive_eq_of_labelsAgree hfrom hto hle (exact_of_sameTimes hstores hsame) huptodate
      hnonneg hdata huncapped hscan (h.of_sameTimes hsame)

/-- The times of `chrono` and a local time of UTC. -/
def utc : Zone := ⟨0, -8334601228800000, 8210266876799999⟩

/-- The seconds of `unixepoch` are those of the years from -4713 to 9999. -/
def strftime (zone : Zone) : Clock where
  bucket := fun interval second ↦
    if -210866760000 ≤ second ∧ second < 253402300800 then
      some (dateLabel zone interval (second * 1000) ++
        if interval = .hour then
          " " ++ padded 2 ((second * 1000 + zone.offsetMs) / 3600000 % 24)
        else "")
    else none
  hourOfDay := fun second ↦
    if -210866760000 ≤ second ∧ second < 253402300800 then
      some (padded 2 ((second * 1000 + zone.offsetMs) / 3600000 % 24) ++ ":00")
    else none

theorem strftime_localDates : (strftime zone).LocalDates zone := by
  intro interval hinterval second label hlabel
  simp only [strftime, if_neg hinterval, String.append_empty] at hlabel
  split at hlabel
  · exact (Option.some.inj hlabel).symm
  · cases hlabel

def daily : AnalysisParams where
  interval := some "day"

def answered (ms : ℤ) : Row where
  timeMs := some ms
  status := some 200

def oneArchive (ms : ℤ) : Stores := ⟨[], [⟨[answered ms], ⟨0, some ms, some ms⟩, rfl, rfl⟩]⟩

def rolled (ms : ℤ) : List RollupShard :=
  [⟨⟨[], none, none, true⟩, none⟩,
    ⟨⟨[answered ms], some ms, some ms, false⟩,
      some (build utc.localDayMs [(answered ms).toRecord])⟩]

theorem rollupAgrees_iff_noon :
    RollupAgrees utc (strftime utc) daily 0 86399999 true (rolled 43200000) ↔
      DatesAgree utc (strftime utc) daily 0 86399999 (rolled 43200000) :=
  have hstores : (rolled 43200000).map (·.input) =
      collectShards 0 86399999 (oneArchive 43200000) := rfl
  rollupAgrees_iff strftime_localDates (by decide) (by decide) (by decide) hstores rfl

theorem rolled_upToDate (ms : ℤ) : ∀ shard ∈ rolled ms, shard.UpToDate utc fromMs toMs := by
  intro shard hshard tables firstFull fullEnd htables _
  rcases List.mem_cons.mp hshard with rfl | hshard
  · cases htables
  · obtain rfl := List.mem_singleton.mp hshard
    obtain rfl := Option.some.inj htables
    rfl

theorem rolled_nonNegative (ms : ℤ) : ∀ shard ∈ rolled ms, NonNegative shard.input.rows := by
  intro shard hshard r hr
  rcases List.mem_cons.mp hshard with rfl | hshard
  · cases hr
  · obtain rfl := List.mem_singleton.mp hshard
    obtain rfl := List.mem_singleton.mp hr
    exact ⟨fun v hv ↦ absurd hv (Option.some_ne_none v).symm,
      fun v hv ↦ absurd hv (Option.some_ne_none v).symm⟩

/-- The last millisecond before 1970 is cut to the first second of 1970 by the scan. And the sums of
days are not added up to the float of the scan. -/
theorem last_millisecond_of_1969 :
    ((rolled (-1)).map (·.input) = collectShards (-86400000) (-1) (oneArchive (-1)) ∧
      (∀ shard ∈ rolled (-1), shard.UpToDate utc (-86400000) (-1)) ∧
      (∀ shard ∈ rolled (-1), NonNegative shard.input.rows) ∧
      (scanShards (strftime utc) daily (-86400000) (-1)
        ((rolled (-1)).map (·.input))).dimCapped = false ∧
      ∃ data, analyse utc (strftime utc) daily (-86400000) (-1) true (rolled (-1)) = some data ∧
        data.scans.dimCapped = false ∧
        (data.scans.additive.trend.value "1969-12-31").success = 1 ∧
        ((scanShards (strftime utc) daily (-86400000) (-1)
          ((rolled (-1)).map (·.input))).additive.trend.value "1969-12-31").success = 0) ∧
    RoundsApart [[tenths 0 1], [tenths 86400000 2, tenths 86400001 3]]
      [[tenths 0 1, tenths 86400000 2, tenths 86400001 3]] := by
  refine ⟨⟨rfl, rolled_upToDate (-1), rolled_nonNegative (-1), by decide +kernel, ?_⟩,
    roundsApart_of_ne (by decide +kernel) (.refl _)⟩
  have hdata : (analyse utc (strftime utc) daily (-86400000) (-1) true (rolled (-1))).map
      (fun data ↦ (data.scans.dimCapped,
        (data.scans.additive.trend.value "1969-12-31").success)) = some (false, 1) := by
    decide +kernel
  obtain ⟨data, hanalyse, hvalues⟩ := Option.map_eq_some_iff.mp hdata
  obtain ⟨huncapped, hsuccess⟩ := Prod.mk.inj hvalues
  exact ⟨data, hanalyse, huncapped, hsuccess, by decide +kernel⟩

end Result

end QueQiao.AnalysisApi
