import QueQiao.Handlers.MetricsEngine
import QueQiao.Handlers.RollupAgreement

namespace QueQiao.MetricsApi

open Lib.Aggregation Aggregate AnalysisApi

section Entries

def metricOf (m : Metrics) : MetricName → Option MetricValue
  | .requests => some (.integer m.requests)
  | .success => some (.integer m.success)
  | .errors => some (.integer m.errors)
  | .promptTokens => some (.integer m.promptTokens)
  | .completionTokens => some (.integer m.completionTokens)
  | .totalTokens => some (.integer m.totalTokens)
  | .latencySum => some (.sum m.latencySum)
  | .latencyCount => some (.integer m.latencyCount)
  | .maxLatency => some (.real m.latencyMax)
  | .ttftSum => some (.sum m.ttftSum)
  | .ttftCount => some (.integer m.ttftCount)
  | .avgLatency | .avgTtft | .successRate | .errorRate => none

theorem accMetric_eq (acc : Acc) (metric : MetricName) :
    accMetric acc metric = metricOf (metricsFromAcc acc) metric := by
  cases metric <;> rfl

theorem rowMetric_eq {row : Columns} (hmax : 0 ≤ row.latencyMax.getD 0) (metric : MetricName) :
    (if metric.derived = false then some (rowMetric row metric) else none) =
      metricOf (metricsFromRow row) metric := by
  cases metric with
  | maxLatency => exact congrArg (fun v ↦ some (MetricValue.real v)) (Rat.coe_toNNRat _ hmax).symm
  | _ => rfl

theorem mergeValue_metricOf (m m' : Metrics) (metric : MetricName) :
    mergeValue metric (metricOf m metric) (metricOf m' metric) = metricOf (m + m') metric := by
  cases metric with
  | maxLatency =>
    exact congrArg (fun v ↦ some (MetricValue.real v)) (NNRat.coe_max m.latencyMax m'.latencyMax).symm
  | requests | success | errors | latencyCount | ttftCount =>
    exact congrArg (fun v ↦ some (MetricValue.integer v)) (Nat.cast_add _ _).symm
  | _ => rfl

variable (metrics : List MetricName)

def entriesOf (groups : GroupMap String Metrics) : GroupRows where
  keys := groups.keys
  value name metric :=
    if name ∈ groups.keys ∧ metric ∈ metrics then metricOf (groups.value name) metric else none
  value_eq_zero _ h := funext fun _ ↦ if_neg fun h' ↦ h h'.1

theorem mergeGroups_entriesOf (g h : GroupMap String Metrics) :
    mergeGroups (entriesOf metrics g) (entriesOf metrics h) metrics = entriesOf metrics (g + h) := by
  refine GroupMap.ext rfl (funext fun name ↦ funext fun metric ↦ ?_)
  simp only [mergeGroups, entriesOf, GroupMap.keys_add, GroupMap.value_add, Finset.mem_union]
  by_cases hmetric : metric ∈ metrics
  · by_cases hg : name ∈ g.keys <;> by_cases hh : name ∈ h.keys
    · simp only [hg, hh, hmetric, and_self, or_self, if_true]
      exact mergeValue_metricOf _ _ metric
    · simp only [hg, hh, hmetric, and_self, or_false, false_and, if_true, if_false,
        h.value_eq_zero name hh, add_zero]
      cases metricOf (g.value name) metric <;> rfl
    · simp only [hg, hh, hmetric, and_self, false_or, false_and, if_true, if_false,
        g.value_eq_zero name hg, zero_add]
      cases metricOf (h.value name) metric <;> rfl
    · simp only [hg, hh, hmetric, or_self, false_and, if_true, if_false]
      rfl
  · simp only [hmetric, and_false, if_false]

variable {metrics}

theorem groupsFromAcc_eq (key : Row → String) (rows : List Row) :
    groupsFromAcc metrics (total (fun r ↦ GroupMap.single (key r) r.toRecord.acc) rows) =
      entriesOf metrics (total (fun r ↦ GroupMap.single (key r) (summaryMetrics r)) rows) := by
  obtain ⟨hacckeys, haccvalue⟩ := GroupMap.total_single_groups key (fun r ↦ r.toRecord.acc) rows
  obtain ⟨hkeys, hvalue⟩ := GroupMap.total_single_groups key summaryMetrics rows
  refine GroupMap.ext (hacckeys.trans hkeys.symm) (funext fun name ↦ funext fun metric ↦ ?_)
  simp only [groupsFromAcc, entriesOf, hacckeys, hkeys, haccvalue, hvalue]
  by_cases hname : name ∈ (rows.map key).toFinset
  · have hmetrics : metricsFromAcc (total (fun r ↦ r.toRecord.acc)
        (rows.filter fun r ↦ key r = name)) =
        total summaryMetrics (rows.filter fun r ↦ key r = name) :=
      (total_hom summaryHom).trans (total_congr fun r _ ↦ metricsFromAcc_acc r)
    rw [if_pos hname, accEntry, accMetric_eq, hmetrics]
    exact if_congr (and_iff_right hname).symm rfl rfl
  · rw [if_neg hname, if_neg fun h ↦ hname h.1]
    rfl

def Durations (rows : List Row) : Prop := ∀ r ∈ rows, ∀ v, r.latencyMs = some v → 0 ≤ v

theorem sqlLatencyMax_nonneg {rows : List Row} (h : Durations rows) : 0 ≤ sqlLatencyMax rows := by
  rw [sqlLatencyMax]
  cases hmax : (rows.filterMap (·.latencyMs)).max? with
  | none => exact le_rfl
  | some v =>
    obtain ⟨r, hr, hlatency⟩ := List.mem_filterMap.mp (List.max?_mem hmax)
    exact h r hr v hlatency

variable (env : Environment)

theorem fetchGroups_eq (group : GroupBy) {rows : List Row} (h : Durations rows) :
    fetchGroups env group metrics rows = entriesOf metrics
      (total (fun r ↦ GroupMap.single (groupExpression env group r) (summaryMetrics r)) rows) := by
  obtain ⟨hkeys, hvalue⟩ :=
    GroupMap.total_single_groups (groupExpression env group) summaryMetrics rows
  refine GroupMap.ext ?_ (funext fun name ↦ funext fun metric ↦ ?_)
  · change (List.map _ (List.map _ _)).toFinset = _
    rw [List.map_map]
    refine Eq.trans ?_ hkeys.symm
    ext name
    simp only [List.mem_toFinset, List.mem_map, List.mem_dedup, Function.comp_apply, exists_eq_right]
  · simp only [fetchGroups, groupsFromRows, entriesOf, hkeys, hvalue, find?_groupBy,
      List.mem_toFinset]
    by_cases hname : name ∈ rows.map (groupExpression env group)
    · have hgroup : Durations (rows.filter fun r ↦ groupExpression env group r = name) :=
        fun r hr ↦ h r (List.mem_of_mem_filter hr)
      have hmetricOf := @rowMetric_eq (summarySql (rows.filter fun r ↦
        groupExpression env group r = name)).metrics (sqlLatencyMax_nonneg hgroup) metric
      rw [if_pos hname, Option.map_some, Option.getD_some, entryOf, ← metricsFromRow_summary,
        ← hmetricOf]
      by_cases hmetric : metric ∈ metrics
      · refine (if_congr (and_iff_right hmetric) rfl rfl).trans ?_
        exact (if_pos ⟨hname, hmetric⟩).symm
      · exact (if_neg fun h ↦ hmetric h.1).trans (if_neg fun h ↦ hmetric h.2).symm
    · rw [if_neg hname, if_neg fun h ↦ hname h.1]
      rfl

end Entries

section Windows

variable {filters : MetricFilters}

theorem filtersAreEmpty_normal : filtersAreEmpty filters = true ↔ filters.normal = {} := by
  rw [filtersAreEmpty, decide_eq_true_eq]

theorem params_supports : (({} : MetricFilters).params).supports = true := by
  decide

theorem select_of_filtersAreEmpty (h : filtersAreEmpty filters = true) (fromMs toMs : ℤ) (full : Bool)
    (shard : ShardInput) :
    (buildFiltersFor filters fromMs toMs full).select shard =
      shard.rows.filter fun r ↦ if full then r.timeMs.isSome else inside (fromMs, toMs) r.timeMs := by
  rw [Conditions.select, ShardInput.select, buildFiltersFor, filtersAreEmpty_normal.mp h]
  apply List.filter_congr
  intro r _
  rw [matches_of_supports params_supports, Bool.and_true]
  cases full <;> rfl

end Windows

section Rollup

variable {env : Environment}

theorem rollupDimFor_eq_some {query : MetricQuery} {dim : Dim}
    (h : rollupDimFor env query = some dim) :
    filtersAreEmpty query.filters = true ∧
      ∀ r, groupExpression env query.groupBy r = r.dimValue dim := by
  rw [rollupDimFor] at h
  by_cases henabled : env.enabled = true
  swap
  · rw [if_neg henabled] at h
    cases h
  rw [if_pos henabled] at h
  cases hgroup : query.groupBy with
  | multiple names =>
    rw [hgroup] at h
    cases h
  | single name =>
    rw [hgroup] at h
    simp only at h
    by_cases hempty : filtersAreEmpty query.filters = true
    swap
    · rw [if_neg hempty] at h
      cases h
    rw [if_pos hempty] at h
    refine ⟨hempty, fun r ↦ ?_⟩
    rw [groupExpression, dimOf]
    cases hdim : dimensionExpr name with
    | none =>
      rw [hdim] at h
      cases h
    | some dimension =>
      rw [hdim] at h
      cases dimension with
      | hour => cases h
      | column dim' =>
        obtain rfl := Option.some.inj h
        exact dimExpr_column env.clock r

variable {shard : MetricShard} {group : GroupBy} {filters : MetricFilters} {dim : Dim}
  {fromMs toMs : ℤ}

def rangeGroups (dim : Dim) (fromMs toMs : ℤ) (rows : List Row) : GroupMap String Metrics :=
  total (fun r ↦ GroupMap.single (r.dimValue dim) (summaryMetrics r))
    (rows.filter fun r ↦ inside (fromMs, toMs) r.timeMs)

/-- Where the tables are those of the rows, the rollup and the windows around the whole days say
what the rows of the range say. -/
theorem rollupGroups_eq (hdim : filtersAreEmpty filters = true ∧
      ∀ r, groupExpression env group r = r.dimValue dim) {firstFull fullEnd : ℤ}
    (hbounds : fullDayBounds env.zone fromMs toMs = some (firstFull, fullEnd))
    (hlt : firstFull < fullEnd) (hdurations : Durations shard.input.rows)
    (htables : shard.tables (fullEnd - 1) =
      some (build env.zone.localDayMs (shard.input.rows.map (·.toRecord))))
    (metrics : List MetricName) :
    rollupGroups env shard dim group filters fromMs toMs metrics =
      some (entriesOf metrics (rangeGroups dim fromMs toMs shard.input.rows)) := by
  obtain ⟨hempty, hgroup⟩ := hdim
  have hwhole := wholeDays_of_fullDayBounds hbounds
  obtain ⟨before, after, hwindows, htiles⟩ := hwhole.tiles hlt
  let part (window : ℤ × ℤ) : GroupMap String Metrics :=
    rangeGroups dim window.1 window.2 shard.input.rows
  have hwindow (window : ℤ × ℤ) : fetchGroups env group metrics
      ((buildFiltersFor filters window.1 window.2 false).select shard.input) =
      entriesOf metrics (part window) := by
    rw [select_of_filtersAreEmpty hempty,
      fetchGroups_eq env group fun r hr ↦ hdurations r (List.mem_of_mem_filter hr)]
    simp only [hgroup]
    rfl
  have hfold (windows : List (ℤ × ℤ)) (g : GroupMap String Metrics) :
      windows.foldl (fun groups window ↦ mergeGroups groups (fetchGroups env group metrics
        ((buildFiltersFor filters window.1 window.2 false).select shard.input)) metrics)
        (entriesOf metrics g) = entriesOf metrics (g + (windows.map part).sum) := by
    induction windows generalizing g with
    | nil => rw [List.foldl_nil, List.map_nil, List.sum_nil, add_zero]
    | cons window windows ih =>
      rw [List.foldl_cons, hwindow, mergeGroups_entriesOf, ih, List.map_cons, List.sum_cons, add_assoc]
  have hparts : part (firstFull, fullEnd - 1) + ((before ++ after).map part).sum =
      rangeGroups dim fromMs toMs shard.input.rows := by
    have htotal := htiles.total_eq (f := fun r ↦ GroupMap.single (r.dimValue dim) (summaryMetrics r))
      shard.input.rows (·.timeMs)
    rw [Int.add_sub_cancel] at htotal
    rw [rangeGroups, ← htotal, List.map_append, List.map_append, List.map_cons, List.sum_append,
      List.sum_append, List.sum_cons, add_left_comm]
    rfl
  rw [rollupGroups, hbounds]
  simp only [if_neg (not_le.mpr hlt), htables, Option.map_some]
  rw [readRange_dims hwhole, groupsFromAcc_eq, hwindows]
  exact congrArg some ((hfold _ _).trans (congrArg _ hparts))

theorem rollupGroups_none (h : ∀ firstFull fullEnd,
      fullDayBounds env.zone fromMs toMs = some (firstFull, fullEnd) → fullEnd ≤ firstFull)
    (group : GroupBy) (filters : MetricFilters) (metrics : List MetricName) :
    rollupGroups env shard dim group filters fromMs toMs metrics = none := by
  rw [rollupGroups]
  cases hbounds : fullDayBounds env.zone fromMs toMs with
  | none => rfl
  | some bounds => exact if_pos (h _ _ hbounds)

end Rollup

end QueQiao.MetricsApi
