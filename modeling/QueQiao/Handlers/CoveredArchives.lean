import QueQiao.Handlers.AnalysisShards

namespace QueQiao.AnalysisApi

open Lib.Aggregation Aggregate

section Errors

structure DbErrorKey where
  status : ℤ
  model : String
  backend : String
  error : String
  deriving DecidableEq, Repr

def errorKey (r : Row) : DbErrorKey where
  status := r.status.getD 0
  model := coalesceUnknown r.model
  backend := r.backend.getD ""
  error := (r.error.filter (· ≠ "")).getD "-"

def isError (r : Row) : Bool := r.status.any (400 ≤ ·)

/-- The groups of `errors_db_sql` before its limit cuts them. -/
def errorGroups (rows : List Row) : List (DbErrorKey × ℕ) :=
  groupBy errorKey List.length (rows.filter isError)

def errorsDbSql (rows : List Row) : List (DbErrorKey × ℕ) :=
  ((errorGroups rows).mergeSort fun a b ↦ b.2 ≤ a.2).take (countCap + 1)

def mergeErrorMaps (maps : List (GroupMap DbErrorKey ℕ)) : GroupMap DbErrorKey ℕ :=
  maps.foldl (· + ·) 0

end Errors

section Groups

variable {κ ι : Type} [DecidableEq κ] {key : Row → κ} {agg : List Row → ι}

theorem length_groupBy (rows : List Row) :
    (groupBy key agg rows).length = (rows.map key).toFinset.card := by
  rw [groupBy, List.length_map, List.card_toFinset]

theorem length_groupBy_le {rows rows' : List Row} (h : rows ⊆ rows') :
    (groupBy key agg rows).length ≤ (groupBy key agg rows').length := by
  rw [length_groupBy, length_groupBy]
  refine Finset.card_le_card fun k hk ↦ ?_
  rw [List.mem_toFinset] at hk ⊢
  exact List.map_subset key h hk

end Groups

section Merged

def mergedMetrics (rows : List SummaryRow) : Metrics :=
  (mergeSummaries (rows.map summaryFromRow)).metrics

def mergedTrend (rows : List (List (Option String × Columns))) : GroupMap String Metrics :=
  mergeGroupMap (rows.map fun rows ↦ rows.map fun row ↦ (row.1.getD "Unknown", metricsFromRow row.2))

def mergedDims (rows : List (List (String × Columns))) : GroupMap String Metrics :=
  mergeGroupMap (rows.map fun rows ↦ (dimEntries rows).take groupCap)

def mergedHist (rows : List (List (ℤ × ℕ))) : List (ℤ × ℕ) :=
  mergeHistogramMaps (rows.map GroupMap.ofRows)

def mergedErrors (rows : List (List (DbErrorKey × ℕ))) : GroupMap DbErrorKey ℕ :=
  mergeErrorMaps (rows.map GroupMap.ofRows)

theorem mergedMetrics_eq (rows : List SummaryRow) :
    mergedMetrics rows = (rows.map fun row ↦ metricsFromRow row.metrics).sum := by
  rw [mergedMetrics, mergeSummaries_eq, List.map_map]
  rfl

theorem mergedTrend_eq (rows : List (List (Option String × Columns))) :
    mergedTrend rows = (rows.map fun rows ↦ GroupMap.ofRows
      (rows.map fun row ↦ (row.1.getD "Unknown", metricsFromRow row.2))).sum := by
  rw [mergedTrend, mergeGroupMap, GroupMap.ofRows_flatten, List.map_map]
  rfl

theorem mergedDims_eq (rows : List (List (String × Columns))) :
    mergedDims rows =
      (rows.map fun rows ↦ GroupMap.ofRows ((dimEntries rows).take groupCap)).sum := by
  rw [mergedDims, mergeGroupMap, GroupMap.ofRows_flatten, List.map_map]
  rfl

theorem mergedErrors_eq (rows : List (List (DbErrorKey × ℕ))) :
    mergedErrors rows = (rows.map GroupMap.ofRows).sum :=
  List.sum_eq_foldl.symm

theorem ofRows_dimsSql {clock : Clock} {p : AnalysisParams} {rows : List Row}
    (hcap : (dimGroups clock p rows).length ≤ groupCap) :
    GroupMap.ofRows ((dimEntries (dimsSql clock p.dim (groupCap + 1) rows)).take groupCap) =
      dimsOf clock p rows := by
  have htake : dimsSql clock p.dim (groupCap + 1) rows = dimGroups clock p rows :=
    List.take_of_length_le (hcap.trans (Nat.le_succ _))
  rw [htake, List.take_of_length_le (by rwa [dimEntries, List.length_map]), ofRows_dims]

theorem ofRows_errorsDbSql {rows : List Row} (hcap : (errorGroups rows).length ≤ countCap + 1) :
    GroupMap.ofRows (errorsDbSql rows) =
      total (fun r ↦ if isError r then .single (errorKey r) 1 else 0) rows := by
  have hlength (rows : List Row) : id rows.length = total (fun _ ↦ 1) rows := length_eq_total rows
  have hgroups : GroupMap.ofRows ((errorGroups rows).map id) =
      total (fun r ↦ GroupMap.single (errorKey r) 1) (rows.filter isError) :=
    GroupMap.ofRows_groupBy id hlength _
  rw [List.map_id, total_filter] at hgroups
  rw [errorsDbSql, List.take_of_length_le (by rwa [List.length_mergeSort]), GroupMap.ofRows_eq_total,
    total_perm (List.mergeSort_perm _ _), ← GroupMap.ofRows_eq_total, hgroups]

end Merged

section Covered

variable (clock : Clock) (p : AnalysisParams) (fromMs toMs : ℤ)

def fetchBounded {β : Type} (shard : ShardInput) (sql : List Row → β) : List β :=
  (rangeSlices fromMs toMs).map fun tile ↦ sql (shard.select p (some tile))

/-- A shard is answered alike without times and slice by slice. The queries that are never sliced
have the same rows, those with a limit the same groups as long as it cuts none off. -/
structure SlicesAgree (shard : ShardInput) : Prop where
  optimized : ∀ {β : Type} (sql : List Row → β),
    fetchOptimized p fromMs toMs [shard] sql = [sql (shard.select p (some (fromMs, toMs)))]
  metrics : mergedMetrics (fetchOptimized p fromMs toMs [shard] summarySql) =
    mergedMetrics (fetchBounded p fromMs toMs shard summarySql)
  hist : ∀ column, mergedHist (fetchOptimized p fromMs toMs [shard] (latencyHistSql column)) =
    mergedHist (fetchBounded p fromMs toMs shard (latencyHistSql column))
  trend : ∀ interval, mergedTrend (fetchSliced p fromMs toMs [shard] (trendSql clock interval)) =
    mergedTrend (fetchBounded p fromMs toMs shard (trendSql clock interval))
  dims : (dimGroups clock p (shard.select p none)).length ≤ groupCap →
    mergedDims (fetchSliced p fromMs toMs [shard] (dimsSql clock p.dim (groupCap + 1))) =
      mergedDims (fetchBounded p fromMs toMs shard (dimsSql clock p.dim (groupCap + 1)))
  errors : (errorGroups (shard.select p none)).length ≤ countCap + 1 →
    mergedErrors (fetchSliced p fromMs toMs [shard] errorsDbSql) =
      mergedErrors (fetchBounded p fromMs toMs shard errorsDbSql)

variable {clock p fromMs toMs} {shard : ShardInput}

theorem select_subset (tile : ℤ × ℤ) : shard.select p (some tile) ⊆ shard.select p none := by
  intro r hr
  rw [ShardInput.select, List.mem_filter, Bool.and_eq_true] at hr ⊢
  obtain ⟨hmem, hinside, hmatches⟩ := hr
  refine ⟨hmem, ?_, hmatches⟩
  cases htime : r.timeMs with
  | none =>
    rw [htime] at hinside
    cases hinside
  | some => rfl

variable (hcovered : shard.covered fromMs toMs = true)

include hcovered

theorem fetchSliced_covered {β : Type} (sql : List Row → β) :
    fetchSliced p fromMs toMs [shard] sql = [sql (shard.select p none)] := by
  rw [fetchSliced, List.flatMap_singleton, if_pos hcovered, List.map_singleton]

theorem fetchOptimized_covered {β : Type} (sql : List Row → β) :
    fetchOptimized p fromMs toMs [shard] sql = [sql (shard.select p none)] := by
  rw [fetchOptimized, List.map_singleton, if_pos hcovered]

variable (hexact : shard.Exact) (hfrom : IsI64 fromMs) (hto : IsI64 toMs) (hle : fromMs ≤ toMs)

include hexact hfrom hto hle

/-- Where a query is a sum over its rows, as long as these are among those of the shard, the
slices add up to the query without times. -/
theorem sum_fetchBounded {M β : Type} [AddCommMonoid M] {f : Row → M} {sql : List Row → β}
    (read : β → M) (hread : ∀ rows ⊆ shard.select p none, read (sql rows) = total f rows) :
    ((fetchBounded p fromMs toMs shard sql).map read).sum = read (sql (shard.select p none)) := by
  rw [fetchBounded, sum_slices read shard (fun tile _ ↦ hread _ (select_subset tile)) hfrom hto hle,
    hread _ (List.Subset.refl _), select_none hexact hcovered]

/-- An archive that is read whole has the merged answers of its slices. -/
theorem covered_slicesAgree : SlicesAgree clock p fromMs toMs shard where
  optimized := fun sql ↦ by
    rw [fetchOptimized_covered hcovered, select_none hexact hcovered, select_range]
  metrics := by
    rw [fetchOptimized_covered hcovered, mergedMetrics_eq, mergedMetrics_eq, List.map_singleton,
      List.sum_singleton, sum_fetchBounded hcovered hexact hfrom hto hle
        (fun row : SummaryRow ↦ metricsFromRow row.metrics) fun rows _ ↦ metricsFromRow_summary rows]
  hist := fun column ↦ by
    rw [fetchOptimized_covered hcovered, mergedHist, mergedHist, mergeHistogramMaps_eq,
      mergeHistogramMaps_eq, List.map_singleton, List.sum_singleton,
      sum_fetchBounded hcovered hexact hfrom hto hle GroupMap.ofRows
        fun rows _ ↦ ofRows_latencyHistSql column rows]
  trend := fun interval ↦ by
    rw [fetchSliced_covered hcovered, mergedTrend_eq, mergedTrend_eq, List.map_singleton,
      List.sum_singleton, sum_fetchBounded hcovered hexact hfrom hto hle
        (fun rows : List (Option String × Columns) ↦ GroupMap.ofRows
          (rows.map fun row ↦ (row.1.getD "Unknown", metricsFromRow row.2)))
        fun rows _ ↦ ofRows_trendSql interval rows]
  dims := fun hcap ↦ by
    rw [fetchSliced_covered hcovered, mergedDims_eq, mergedDims_eq, List.map_singleton,
      List.sum_singleton, sum_fetchBounded hcovered hexact hfrom hto hle
        (fun rows ↦ GroupMap.ofRows ((dimEntries rows).take groupCap))
        fun rows hrows ↦ ofRows_dimsSql ((length_groupBy_le hrows).trans hcap)]
  errors := fun hcap ↦ by
    rw [fetchSliced_covered hcovered, mergedErrors_eq, mergedErrors_eq, List.map_singleton,
      List.sum_singleton, sum_fetchBounded hcovered hexact hfrom hto hle GroupMap.ofRows
        fun rows hrows ↦ ofRows_errorsDbSql
          ((length_groupBy_le (List.filter_subset _ hrows)).trans hcap)]

end Covered

section Capped

def twoDays : ShardInput where
  rows := [{ timeMs := some 0 }, { timeMs := none }, { timeMs := some dayMs, status := some 500 }]
  minMs := some 0
  maxMs := some dayMs
  isActive := false

theorem covered_slicesAgree_twoDays : SlicesAgree epochClock {} 0 (2 * dayMs) twoDays :=
  covered_slicesAgree (by decide) (fun _ ↦ ⟨rfl, rfl⟩) (by decide) (by decide) (by decide)

def modelName (i : ℕ) : String := String.ofList (List.replicate (i + 1) 'm')

def manyRow (i : ℕ) : Row where
  timeMs := some (if i < 2501 then 0 else dayMs)
  model := some (modelName i)

def manyModels : ShardInput where
  rows := (List.range (groupCap + 2)).map manyRow
  minMs := some 0
  maxMs := some dayMs
  isActive := false

theorem modelName_injective : Function.Injective modelName := by
  intro i j h
  have hlists := String.ofList_injective h
  have hlength := congrArg List.length hlists
  rw [List.length_replicate, List.length_replicate] at hlength
  omega

theorem dimExpr_manyRow (i : ℕ) : dimExpr epochClock (.column .model) (manyRow i) = modelName i := by
  have hne : modelName i ≠ "" := by
    intro h
    have hlength := congrArg (fun name : String ↦ name.toList.length) h
    simp [modelName] at hlength
  change (Option.filter (· ≠ "") (some (modelName i))).getD "Unknown" = modelName i
  rw [Option.filter_some, if_pos (decide_eq_true hne), Option.getD_some]

theorem manyModels_exact : manyModels.Exact := by
  intro _
  have hmem : ∀ t, t ∈ manyModels.rows.filterMap (·.timeMs) ↔ t = 0 ∨ t = dayMs := by
    intro t
    rw [manyModels, List.filterMap_map, List.mem_filterMap]
    constructor
    · rintro ⟨i, -, hi⟩
      have hi := Option.some.inj hi
      split at hi
      · exact .inl hi.symm
      · exact .inr hi.symm
    · rintro (rfl | rfl)
      · exact ⟨0, List.mem_range.mpr (by decide), rfl⟩
      · exact ⟨2501, List.mem_range.mpr (by decide), rfl⟩
  refine ⟨(List.min?_eq_some_iff.mpr ⟨(hmem 0).mpr (.inl rfl), fun t ht ↦ ?_⟩).symm,
    (List.max?_eq_some_iff.mpr ⟨(hmem dayMs).mpr (.inr rfl), fun t ht ↦ ?_⟩).symm⟩
  · rcases (hmem t).mp ht with rfl | rfl <;> decide
  · rcases (hmem t).mp ht with rfl | rfl <;> decide

theorem dimGroups_manyModels {tile : ℤ × ℤ} (htile : tile ∈ rangeSlices 0 (2 * dayMs)) :
    (dimGroups epochClock {} (manyModels.select {} (some tile))).length ≤ groupCap := by
  have hslices : rangeSlices 0 (2 * dayMs) = [(0, dayMs - 1), (dayMs, 2 * dayMs)] := by decide
  have hrows (q : ℕ → Bool) (hq : ∀ i, inside tile (manyRow i).timeMs = q i) :
      (dimGroups epochClock {} (manyModels.select {} (some tile))).length ≤
        (List.range (groupCap + 2)).countP q := by
    rw [dimGroups, length_groupBy]
    refine (List.toFinset_card_le _).trans ?_
    rw [List.length_map, ShardInput.select, manyModels, ← List.countP_eq_length_filter,
      List.countP_map]
    refine List.countP_mono_left fun i _ hi ↦ ?_
    rw [Function.comp_apply, Bool.and_eq_true] at hi
    rw [← hq]
    exact hi.1
  rw [hslices, List.mem_cons, List.mem_singleton] at htile
  rcases htile with rfl | rfl
  · refine (hrows (fun i ↦ i < 2501) fun i ↦ ?_).trans (by decide +kernel)
    by_cases hi : i < 2501
    · simp only [manyRow, if_pos hi, decide_eq_true hi]
      decide
    · simp only [manyRow, if_neg hi, decide_eq_false hi]
      decide
  · refine (hrows (fun i ↦ !(i < 2501)) fun i ↦ ?_).trans (by decide +kernel)
    by_cases hi : i < 2501
    · simp only [manyRow, if_pos hi, decide_eq_true hi]
      decide
    · simp only [manyRow, if_neg hi, decide_eq_false hi]
      decide

theorem inRange_manyModels :
    manyModels.rows.filter (({} : AnalysisParams).inRange 0 (2 * dayMs)) = manyModels.rows := by
  rw [List.filter_eq_self]
  intro r hr
  simp only [manyModels, List.mem_map] at hr
  obtain ⟨i, -, hrow⟩ := hr
  rw [← hrow, AnalysisParams.inRange, manyRow]
  by_cases hi : i < 2501
  · simp only [if_pos hi]
    rfl
  · simp only [if_neg hi]
    rfl

def slowDays : ShardInput where
  rows := [⟨tenths 0 1, none, none⟩, ⟨tenths dayMs 2, none, none⟩,
    ⟨tenths dayMs 3, none, none⟩]
  minMs := some 0
  maxMs := some dayMs
  isActive := false

/-- The query of the whole archive loses the models that its limit cuts off; those of its slices
keep them. And the latencies of the slices are not added up to the float of the whole. -/
theorem capped_slices_differ :
    (manyModels.Exact ∧ manyModels.covered 0 (2 * dayMs) = true ∧
      mergedDims (fetchSliced {} 0 (2 * dayMs) [manyModels]
        (dimsSql epochClock (.column .model) (groupCap + 1))) ≠
      mergedDims (fetchBounded {} 0 (2 * dayMs) manyModels
        (dimsSql epochClock (.column .model) (groupCap + 1)))) ∧
    slowDays.Exact ∧ slowDays.covered 0 (2 * dayMs) = true ∧
      RoundsApart (fetchSliced {} 0 (2 * dayMs) [slowDays] (·.map (·.toRecord)))
        (fetchBounded {} 0 (2 * dayMs) slowDays (·.map (·.toRecord))) := by
  refine ⟨⟨manyModels_exact, by decide, fun heq ↦ ?_⟩, fun _ ↦ ⟨rfl, rfl⟩, by decide,
    roundsApart_of_ne (by decide +kernel) (.refl _)⟩
  have hwhole : (mergedDims (fetchSliced {} 0 (2 * dayMs) [manyModels]
      (dimsSql epochClock (.column .model) (groupCap + 1)))).keys.card ≤ groupCap := by
    rw [fetchSliced_covered (by decide), mergedDims_eq, List.map_singleton, List.sum_singleton,
      GroupMap.keys_ofRows]
    refine (List.toFinset_card_le _).trans ?_
    rw [List.length_map, List.length_take]
    exact Nat.min_le_left _ _
  have hbounded : mergedDims (fetchBounded {} 0 (2 * dayMs) manyModels
      (dimsSql epochClock (.column .model) (groupCap + 1))) =
      dimsOf epochClock {} manyModels.rows := by
    rw [mergedDims_eq, fetchBounded, ← inRange_manyModels]
    exact sum_slices (fun rows ↦ GroupMap.ofRows ((dimEntries rows).take groupCap)) manyModels
      (fun tile htile ↦ ofRows_dimsSql (p := {}) (dimGroups_manyModels htile)) (by decide) (by decide)
      (by decide)
  have hkeys : (dimsOf epochClock {} manyModels.rows).keys =
      ((List.range (groupCap + 2)).map modelName).toFinset := by
    rw [dimsOf, (GroupMap.total_single_groups _ _ _).1, manyModels, List.map_map]
    exact congrArg List.toFinset (List.map_congr_left fun i _ ↦ dimExpr_manyRow i)
  rw [heq, hbounded, hkeys, List.toFinset_card_of_nodup
    (List.nodup_range.map modelName_injective), List.length_map, List.length_range] at hwhole
  exact absurd hwhole (by decide)

end Capped

end QueQiao.AnalysisApi
