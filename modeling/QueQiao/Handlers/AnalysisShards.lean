import QueQiao.Handlers.RangeSlices

namespace QueQiao.AnalysisApi

open Lib.Aggregation Aggregate Archive
open Lib
open Lib.Binary64 (FloatSum)

section Contributions

/-- What one record adds to the metrics of a group, up to the two columns that not every query
has. -/
def Row.metrics (requests : ℕ) (latencyMax : ℚ≥0) (r : Row) : Metrics where
  requests := requests
  success := if r.status.any fun s ↦ 200 ≤ s && s < 400 then 1 else 0
  errors := if r.status.any (400 ≤ ·) then 1 else 0
  promptTokens := r.promptTokens.getD 0
  completionTokens := r.completionTokens.getD 0
  totalTokens := r.totalTokens.getD 0
  latencySum := .of r.latencyMs
  latencyCount := if r.latencyMs.isSome then 1 else 0
  latencyMax := latencyMax
  ttftSum := .of r.ttftMs
  ttftCount := if r.ttftMs.isSome then 1 else 0

def Row.latencyMax (r : Row) : ℚ≥0 := (r.latencyMs.getD 0).toNNRat

def Row.counted (r : Row) : ℕ := if r.status.any (200 ≤ ·) then 1 else 0

def summaryMetrics (r : Row) : Metrics := r.metrics r.counted r.latencyMax
def trendMetrics (r : Row) : Metrics := r.metrics 0 0
def dimMetrics (r : Row) : Metrics := r.metrics 1 r.latencyMax

theorem countP_cons_ite (q : Row → Bool) (r : Row) (rows : List Row) :
    (r :: rows).countP q = (if q r then 1 else 0) + rows.countP q := by
  rw [List.countP_cons, Nat.add_comm]

theorem sqlRequestsCounted_cons (r : Row) (rows : List Row) :
    sqlRequestsCounted (r :: rows) = r.counted + sqlRequestsCounted rows :=
  countP_cons_ite (fun r : Row ↦ r.status.any fun s : ℤ ↦ decide (200 ≤ s)) r rows

theorem filterMap_cons_floatSum (column : Row → Option ℚ) (r : Row) (rows : List Row) :
    (((r :: rows).filterMap column : List ℚ) : FloatSum) =
      FloatSum.of (column r) + (rows.filterMap column : List ℚ) := by
  cases h : column r with
  | none =>
    rw [List.filterMap_cons_none h]
    exact (zero_add _).symm
  | some x =>
    rw [List.filterMap_cons_some h]
    rfl

theorem sqlLatencyMax_cons (r : Row) (rows : List Row) :
    (sqlLatencyMax (r :: rows)).toNNRat = max r.latencyMax (sqlLatencyMax rows).toNNRat := by
  have hcons : (r :: rows).filterMap (·.latencyMs) =
      r.latencyMs.toList ++ rows.filterMap (·.latencyMs) := by
    rw [List.filterMap_eq_flatMap_toList, List.flatMap_cons, ← List.filterMap_eq_flatMap_toList]
  rw [Row.latencyMax, sqlLatencyMax, sqlLatencyMax, hcons]
  cases r.latencyMs with
  | none => exact (max_eq_right zero_le).symm
  | some x =>
    rw [Option.toList_some, List.singleton_append, List.max?_cons]
    cases (rows.filterMap (·.latencyMs)).max? with
    | none => exact (max_eq_left zero_le).symm
    | some y => exact NNRat.toNNRat_mono.map_max

theorem metricsFromRow_cons {requests requests' : Option ℕ} {slowest slowest' : Option ℚ} {r : Row}
    {rows : List Row} {q : ℕ} {m : ℚ≥0} (hrequests : requests'.getD 0 = q + requests.getD 0)
    (hmax : (slowest'.getD 0).toNNRat = max m (slowest.getD 0).toNNRat) :
    metricsFromRow (columns requests' slowest' (r :: rows)) =
      r.metrics q m + metricsFromRow (columns requests slowest rows) := by
  refine Metrics.ext hrequests ?_ ?_ ?_ ?_ ?_ ?_ ?_ hmax ?_ ?_
  · exact countP_cons_ite (fun r ↦ r.status.any fun s ↦ 200 ≤ s && s < 400) r rows
  · exact countP_cons_ite (fun r ↦ r.status.any (400 ≤ ·)) r rows
  · exact List.sum_cons
  · exact List.sum_cons
  · exact List.sum_cons
  · exact filterMap_cons_floatSum _ _ _
  · exact countP_cons_ite (·.latencyMs.isSome) r rows
  · exact filterMap_cons_floatSum _ _ _
  · exact countP_cons_ite (·.ttftMs.isSome) r rows

/-- What the answers of a query are added up to in `f64` is a sum of the latencies of its rows. -/
theorem sumsTo_metricsFromRow {sql : List Row → Columns}
    (hsql : ∀ rows, (sql rows).latencySum = (rows.filterMap (·.latencyMs) : List ℚ))
    (parts : List (List Row)) :
    Binary64.SumsTo ((parts.map fun rows ↦ metricsFromRow (sql rows)).sum).latencySum
      (latencyF64 (parts.map fun rows ↦ rows.map (·.toRecord))) := by
  have hparts : ((parts.map fun rows ↦ metricsFromRow (sql rows)).sum).latencySum =
      (parts.map fun rows ↦ ((rows.filterMap (·.latencyMs) : List ℚ) : FloatSum)).sum := by
    induction parts with
    | nil => rfl
    | cons rows parts ih =>
      rw [List.map_cons, List.map_cons, List.sum_cons, List.sum_cons, ← ih, ← hsql]
      rfl
  rw [hparts, latencyF64, List.map_map]
  refine Binary64.SumsTo.sum fun rows _ ↦ ?_
  rw [Function.comp_apply, List.filterMap_map]
  exact Binary64.sumsTo_sum _

theorem metricsFromRow_nil {requests : Option ℕ} {slowest : Option ℚ} (hrequests : requests.getD 0 = 0)
    (hmax : slowest.getD 0 = 0) : metricsFromRow (columns requests slowest []) = 0 :=
  Metrics.ext hrequests rfl rfl rfl rfl rfl rfl rfl
    ((congrArg Rat.toNNRat hmax).trans Rat.toNNRat_zero) rfl rfl

theorem metricsFromRow_summary (rows : List Row) :
    metricsFromRow (summarySql rows).metrics = total summaryMetrics rows := by
  induction rows with
  | nil => exact metricsFromRow_nil rfl rfl
  | cons r rows ih =>
    rw [total_cons, ← ih]
    exact metricsFromRow_cons (sqlRequestsCounted_cons r rows) (sqlLatencyMax_cons r rows)

theorem metricsFromRow_trend (rows : List Row) :
    metricsFromRow (columns none none rows) = total trendMetrics rows := by
  induction rows with
  | nil => exact metricsFromRow_nil rfl rfl
  | cons r rows ih =>
    rw [total_cons, ← ih]
    refine metricsFromRow_cons (Nat.zero_add 0).symm ?_
    exact (max_eq_right zero_le).symm

theorem metricsFromRow_dims (rows : List Row) :
    metricsFromRow (columns (some rows.length) (some (sqlLatencyMax rows)) rows) =
      total dimMetrics rows := by
  induction rows with
  | nil => exact metricsFromRow_nil rfl rfl
  | cons r rows ih =>
    rw [total_cons, ← ih]
    exact metricsFromRow_cons (Nat.add_comm _ _) (sqlLatencyMax_cons r rows)

end Contributions

section Windows

variable {p : AnalysisParams} {fromMs toMs : ℤ}

def AnalysisParams.inRange (p : AnalysisParams) (fromMs toMs : ℤ) (r : Row) : Bool :=
  inside (fromMs, toMs) r.timeMs && p.matches r

/-- The bounds of an archive are those of its times. -/
def ShardInput.Exact (shard : ShardInput) : Prop :=
  shard.isActive = false → shard.minMs = (shard.rows.filterMap (·.timeMs)).min? ∧
    shard.maxMs = (shard.rows.filterMap (·.timeMs)).max?

theorem select_some (shard : ShardInput) (tile : ℤ × ℤ) :
    shard.select p (some tile) = (shard.rows.filter p.matches).filter
      fun r ↦ inside tile r.timeMs := by
  rw [List.filter_filter]
  rfl

theorem select_range (shard : ShardInput) :
    shard.select p (some (fromMs, toMs)) = shard.rows.filter (p.inRange fromMs toMs) := rfl

theorem select_none {shard : ShardInput} (hexact : shard.Exact)
    (hcovered : shard.covered fromMs toMs = true) :
    shard.select p none = shard.rows.filter (p.inRange fromMs toMs) := by
  rw [ShardInput.covered, Bool.and_eq_true, Bool.and_eq_true, Bool.not_eq_true'] at hcovered
  obtain ⟨⟨hactive, hmin⟩, hmax⟩ := hcovered
  obtain ⟨hminMs, hmaxMs⟩ := hexact hactive
  rw [hminMs] at hmin
  rw [hmaxMs] at hmax
  apply List.filter_congr
  intro r hr
  rw [AnalysisParams.inRange]
  congr 1
  cases htime : r.timeMs with
  | none => rfl
  | some t =>
    have hmem : t ∈ shard.rows.filterMap (·.timeMs) := List.mem_filterMap.mpr ⟨r, hr, htime⟩
    obtain ⟨lo, hlo, hfrom⟩ := (Option.any_eq_true _ _).mp hmin
    obtain ⟨hi, hhi, hto⟩ := (Option.any_eq_true _ _).mp hmax
    have hge := (List.min?_eq_some_iff.mp hlo).2 t hmem
    have hle := (List.max?_eq_some_iff.mp hhi).2 t hmem
    simp only [decide_eq_true_eq] at hfrom hto
    symm
    change (decide (fromMs ≤ t) && decide (t ≤ toMs)) = true
    rw [decide_eq_true (hfrom.trans hge), decide_eq_true (hle.trans hto), Bool.and_self]

variable {M β : Type} [AddCommMonoid M] {f : Row → M} {sql : List Row → β} {read : β → M}
  {shards : List ShardInput}

theorem fetchOptimized_eq (hexact : ∀ shard ∈ shards, shard.Exact) :
    fetchOptimized p fromMs toMs shards sql =
      shards.map fun shard ↦ sql (shard.rows.filter (p.inRange fromMs toMs)) := by
  apply List.map_congr_left
  intro shard hshard
  split
  · rename_i hcovered
    rw [select_none (hexact shard hshard) hcovered]
  · rw [select_range]

def rowsInRange (p : AnalysisParams) (fromMs toMs : ℤ) (shards : List ShardInput) : List Row :=
  shards.flatMap fun shard ↦ shard.rows.filter (p.inRange fromMs toMs)

variable (read)

theorem sum_fetchOptimized (hread : ∀ rows, read (sql rows) = total f rows)
    (hexact : ∀ shard ∈ shards, shard.Exact) :
    ((fetchOptimized p fromMs toMs shards sql).map read).sum =
      total f (rowsInRange p fromMs toMs shards) := by
  rw [fetchOptimized_eq hexact, List.map_map, rowsInRange, total_flatMap]
  exact congrArg List.sum (List.map_congr_left fun shard _ ↦ hread _)

theorem sum_slices (shard : ShardInput)
    (hread : ∀ tile ∈ rangeSlices fromMs toMs,
      read (sql (shard.select p (some tile))) = total f (shard.select p (some tile)))
    (hfrom : IsI64 fromMs) (hto : IsI64 toMs) (hle : fromMs ≤ toMs) :
    (((rangeSlices fromMs toMs).map fun tile ↦ sql (shard.select p (some tile))).map read).sum =
      total f (shard.rows.filter (p.inRange fromMs toMs)) := by
  have htiles := (rangeSlices_tiles hfrom hto hle).total_eq (f := f)
    (shard.rows.filter p.matches) (·.timeMs)
  rw [List.filter_filter, Int.add_sub_cancel] at htiles
  rw [List.map_map]
  refine Eq.trans (congrArg List.sum (List.map_congr_left fun tile htile ↦ ?_)) htiles
  rw [Function.comp_apply, hread tile htile, select_some]

theorem sum_fetchSliced (hread : ∀ rows, read (sql rows) = total f rows)
    (hfrom : IsI64 fromMs) (hto : IsI64 toMs) (hle : fromMs ≤ toMs)
    (hexact : ∀ shard ∈ shards, shard.Exact) :
    ((fetchSliced p fromMs toMs shards sql).map read).sum =
      total f (rowsInRange p fromMs toMs shards) := by
  rw [rowsInRange, total_flatMap]
  induction shards with
  | nil => rfl
  | cons shard shards ih =>
    have ih := ih fun shard hshard ↦ hexact shard (List.mem_cons_of_mem _ hshard)
    rw [fetchSliced] at ih ⊢
    rw [List.flatMap_cons, List.map_append, List.sum_append, ih, total_cons]
    congr 1
    split
    · rename_i hcovered
      rw [List.map_singleton, List.map_singleton, List.sum_singleton, hread,
        select_none (hexact shard List.mem_cons_self) hcovered]
    · have hslices := sum_slices (p := p) read shard (fun _ _ ↦ hread _) hfrom hto hle
      rw [List.map_map] at hslices
      rwa [List.map_map, List.map_map]

end Windows

section Stores

variable {p : AnalysisParams} {fromMs toMs : ℤ} {stores : Stores}

def Stores.inRange (p : AnalysisParams) (fromMs toMs : ℤ) (stores : Stores) : List Row :=
  stores.rows.filter (p.inRange fromMs toMs)

theorem collectShards_exact : ∀ shard ∈ collectShards fromMs toMs stores, shard.Exact := by
  intro shard hshard hactive
  rcases List.mem_cons.mp hshard with rfl | hmem
  · cases hactive
  · obtain ⟨a, -, rfl⟩ := List.mem_map.mp hmem
    exact ⟨a.minMs_eq, a.maxMs_eq⟩

theorem ArchiveInput.overlaps_of_inside {a : ArchiveInput} {r : Row} (hr : r ∈ a.rows)
    (hinside : inside (fromMs, toMs) r.timeMs = true) :
    a.shard.overlaps ⟨some fromMs, some toMs⟩ = true := by
  obtain ⟨t, ht, hwithin⟩ := (Option.any_eq_true _ _).mp hinside
  rw [Bool.and_eq_true, decide_eq_true_eq, decide_eq_true_eq] at hwithin
  have hmem : t ∈ a.rows.filterMap (·.timeMs) := List.mem_filterMap.mpr ⟨r, hr, ht⟩
  obtain ⟨lo, hlo⟩ := Option.isSome_iff_exists.mp (List.isSome_min?_of_mem hmem)
  obtain ⟨hi, hhi⟩ := Option.isSome_iff_exists.mp (List.isSome_max?_of_mem hmem)
  have hle := (List.min?_eq_some_iff.mp hlo).2 t hmem
  have hge := (List.max?_eq_some_iff.mp hhi).2 t hmem
  rw [← a.minMs_eq] at hlo
  rw [← a.maxMs_eq] at hhi
  simp only [ArchiveShard.overlaps, hlo, hhi, Option.all_some, Bool.and_eq_true,
    decide_eq_true_eq]
  omega

theorem ArchiveInput.filter_eq_nil {a : ArchiveInput}
    (h : a.shard.overlaps ⟨some fromMs, some toMs⟩ = false) :
    a.rows.filter (p.inRange fromMs toMs) = [] := by
  rw [List.filter_eq_nil_iff]
  intro r hr hin
  rw [AnalysisParams.inRange, Bool.and_eq_true] at hin
  have hoverlaps := overlaps_of_inside hr hin.1
  rw [h] at hoverlaps
  cases hoverlaps

theorem candidates_rows (archives : List ArchiveInput) :
    (archives.filter (·.shard.overlaps ⟨some fromMs, some toMs⟩)).flatMap
      (fun a ↦ a.rows.filter (p.inRange fromMs toMs)) =
      ((archives.map (·.rows)).flatten).filter (p.inRange fromMs toMs) := by
  induction archives with
  | nil => rfl
  | cons a archives ih =>
    rw [List.map_cons, List.flatten_cons, List.filter_append, ← ih, List.filter_cons]
    cases h : a.shard.overlaps ⟨some fromMs, some toMs⟩ with
    | true => rfl
    | false => rw [a.filter_eq_nil h]; rfl

theorem rowsInRange_collectShards :
    rowsInRange p fromMs toMs (collectShards fromMs toMs stores) =
      stores.inRange p fromMs toMs := by
  rw [collectShards, rowsInRange, List.flatMap_cons, List.flatMap_map, Stores.inRange, Stores.rows,
    List.filter_append, ← candidates_rows]

end Stores

section Merged

variable (clock : Clock) (p : AnalysisParams) (fromMs toMs : ℤ)

def trendOf (rows : List Row) : GroupMap String Metrics :=
  total (fun r ↦ .single ((bucketExpr clock (p.step fromMs toMs) r).getD "Unknown")
    (trendMetrics r)) rows

def dimsOf (rows : List Row) : GroupMap String Metrics :=
  total (fun r ↦ .single (dimExpr clock p.dim r) (dimMetrics r)) rows

def histOf (column : Row → Option ℚ) (rows : List Row) : GroupMap ℤ ℕ :=
  total (fun r ↦ (column r).elim 0 fun v ↦ .single (histBucket v) 1) rows

def additiveOf (rows : List Row) : Additive where
  metrics := total summaryMetrics rows
  trend := trendOf clock p fromMs toMs rows
  dims := dimsOf clock p rows
  latencyBuckets := (histOf (·.latencyMs) rows).entries
  ttftBuckets := (histOf (·.ttftMs) rows).entries

variable {clock p fromMs toMs}

theorem ofRows_trendSql (interval : Interval) (rows : List Row) :
    GroupMap.ofRows ((trendSql clock interval rows).map fun row ↦
      (row.1.getD "Unknown", metricsFromRow row.2)) =
      total (fun r ↦ .single ((bucketExpr clock interval r).getD "Unknown") (trendMetrics r)) rows :=
  GroupMap.ofRows_groupBy (fun label : Option String ↦ label.getD "Unknown")
    metricsFromRow_trend rows

variable (clock p) in
/-- The groups of `dimsSql` that its limit cuts. -/
def dimGroups (rows : List Row) : List (String × Columns) :=
  groupBy (dimExpr clock p.dim)
    (fun rows ↦ columns (some rows.length) (some (sqlLatencyMax rows)) rows) rows

def dimEntries (groups : List (String × Columns)) : List (String × Metrics) :=
  groups.map fun row ↦ (row.1, metricsFromRow row.2)

theorem ofRows_dims (rows : List Row) :
    GroupMap.ofRows (dimEntries (dimGroups clock p rows)) = dimsOf clock p rows :=
  GroupMap.ofRows_groupBy id metricsFromRow_dims rows

theorem dimGroups_nodup (rows : List Row) : ((dimGroups clock p rows).map (·.1)).Nodup := by
  rw [dimGroups, groupBy, List.map_map]
  exact (List.map_id _).symm ▸ List.nodup_dedup _

theorem fetchSliced_dimsSql (limit : ℕ) (fromMs toMs : ℤ) (shards : List ShardInput) :
    fetchSliced p fromMs toMs shards (dimsSql clock p.dim limit) =
      (fetchSliced p fromMs toMs shards (dimGroups clock p)).map (·.take limit) := by
  rw [fetchSliced, fetchSliced, List.map_flatMap]
  simp only [List.map_map]
  rfl

theorem ofRows_latencyHistSql (column : Row → Option ℚ) (rows : List Row) :
    GroupMap.ofRows (latencyHistSql column rows) = histOf column rows := by
  have hlength (values : List ℚ) : id values.length = total (fun _ ↦ 1) values :=
    length_eq_total values
  have hgroup : GroupMap.ofRows ((latencyHistSql column rows).map id) =
      total (fun v ↦ GroupMap.single (histBucket v) 1) (rows.filterMap column) :=
    GroupMap.ofRows_groupBy id hlength (rows.filterMap column)
  rw [List.map_id] at hgroup
  rw [hgroup, total_filterMap]
  rfl

theorem mergeHistogramMaps_eq (maps : List (GroupMap ℤ ℕ)) :
    mergeHistogramMaps maps = maps.sum.entries := by
  have hentries : maps.map (fun g ↦ GroupMap.ofRows g.entries) = maps := by
    conv_rhs => rw [← List.map_id maps]
    exact List.map_congr_left fun g _ ↦ g.ofRows_entries
  rw [mergeHistogramMaps, List.flatMap, GroupMap.ofRows_flatten, List.map_map]
  exact congrArg (fun maps ↦ maps.sum.entries) hentries

theorem mergeSummaries_eq (aggs : List SummaryAgg) :
    mergeSummaries aggs =
      ⟨(aggs.map (·.metrics)).sum, (aggs.map (·.models)).sum, (aggs.map (·.ips)).sum⟩ := by
  have hfold (out : SummaryAgg) :
      aggs.foldl (fun out a ↦ ⟨out.metrics + a.metrics, out.models + a.models, out.ips + a.ips⟩)
        out = ⟨out.metrics + (aggs.map (·.metrics)).sum, out.models + (aggs.map (·.models)).sum,
          out.ips + (aggs.map (·.ips)).sum⟩ := by
    induction aggs generalizing out with
    | nil => simp only [List.foldl_nil, List.map_nil, List.sum_nil, add_zero]
    | cons a aggs ih => rw [List.foldl_cons, ih]; simp only [List.map_cons, List.sum_cons, add_assoc]
  rw [mergeSummaries, hfold]
  simp only [zero_add]

end Merged

section Scan

variable {clock : Clock} {p : AnalysisParams} {fromMs toMs : ℤ} {shards : List ShardInput}
  (hexact : ∀ shard ∈ shards, shard.Exact)

include hexact

theorem mergeSummaries_scanShards :
    (mergeSummaries (scanShards clock p fromMs toMs shards).summaries).metrics =
      total summaryMetrics (rowsInRange p fromMs toMs shards) := by
  rw [mergeSummaries_eq, scanShards, List.map_map]
  exact sum_fetchOptimized (fun row : SummaryRow ↦ metricsFromRow row.metrics)
    metricsFromRow_summary hexact

omit hexact in
theorem sumsTo_scanShards : Binary64.SumsTo
    (mergeSummaries (scanShards clock p fromMs toMs shards).summaries).metrics.latencySum
    (latencyF64 (fetchOptimized p fromMs toMs shards fun rows ↦ rows.map (·.toRecord))) := by
  have hsql : ∀ rows, (summarySql rows).metrics.latencySum =
      (rows.filterMap (·.latencyMs) : List ℚ) := fun _ ↦ rfl
  have hsum := sumsTo_metricsFromRow hsql (fetchOptimized p fromMs toMs shards id)
  rw [fetchOptimized, List.map_map, List.map_map] at hsum
  rw [mergeSummaries_eq, scanShards, fetchOptimized, List.map_map, List.map_map]
  exact hsum

theorem mergeHistogramMaps_scan (column : Row → Option ℚ) :
    mergeHistogramMaps ((fetchOptimized p fromMs toMs shards (latencyHistSql column)).map
      GroupMap.ofRows) = (histOf column (rowsInRange p fromMs toMs shards)).entries := by
  rw [mergeHistogramMaps_eq, sum_fetchOptimized _ (ofRows_latencyHistSql column) hexact]
  rfl

variable (hfrom : IsI64 fromMs) (hto : IsI64 toMs) (hle : fromMs ≤ toMs)

include hfrom hto hle

theorem mergeGroupMap_trend :
    mergeGroupMap (scanShards clock p fromMs toMs shards).trend =
      trendOf clock p fromMs toMs (rowsInRange p fromMs toMs shards) := by
  rw [mergeGroupMap, GroupMap.ofRows_flatten, scanShards, List.map_map]
  exact sum_fetchSliced (fun rows : List (Option String × Columns) ↦ GroupMap.ofRows
    (rows.map fun row ↦ (row.1.getD "Unknown", metricsFromRow row.2)))
    (ofRows_trendSql _) hfrom hto hle hexact

theorem mergeGroupMap_dims (huncapped : (scanShards clock p fromMs toMs shards).dimCapped = false) :
    mergeGroupMap ((scanShards clock p fromMs toMs shards).dims.map (·.take groupCap)) =
      dimsOf clock p (rowsInRange p fromMs toMs shards) := by
  rw [ScanData.dimCapped, scanShards, fetchSliced_dimsSql, List.map_map] at huncapped
  rw [scanShards, fetchSliced_dimsSql, List.map_map]
  have hcut : ∀ rows ∈ fetchSliced p fromMs toMs shards (dimGroups clock p),
      (dimEntries (rows.take (groupCap + 1))).take groupCap = dimEntries rows := by
    intro rows hrows
    have hlength := List.any_eq_false.mp huncapped _ (List.mem_map_of_mem hrows)
    rw [decide_eq_true_eq, Function.comp_apply, List.length_map, List.length_take] at hlength
    rw [List.take_of_length_le (l := rows) (by omega), List.take_of_length_le]
    rw [dimEntries, List.length_map]
    omega
  rw [mergeGroupMap, List.map_map]
  refine (congrArg (fun parts ↦ GroupMap.ofRows parts.flatten)
    (List.map_congr_left hcut)).trans ?_
  rw [GroupMap.ofRows_flatten, List.map_map]
  exact sum_fetchSliced (fun rows ↦ GroupMap.ofRows (dimEntries rows)) ofRows_dims hfrom hto
    hle hexact

theorem additive_scanShards
    (huncapped : (scanShards clock p fromMs toMs shards).dimCapped = false) :
    (scanShards clock p fromMs toMs shards).additive =
      additiveOf clock p fromMs toMs (rowsInRange p fromMs toMs shards) := by
  rw [ScanData.additive, additiveOf, mergeSummaries_scanShards hexact,
    mergeGroupMap_trend hexact hfrom hto hle, mergeGroupMap_dims hexact hfrom hto hle huncapped,
    ← mergeHistogramMaps_scan hexact, ← mergeHistogramMaps_scan hexact]
  rfl

end Scan

section Result

variable {clock : Clock} {p : AnalysisParams} {fromMs toMs : ℤ} {log : LogScan} {skipped : ℕ}
  {stores stores' : Stores}

/-- An analysis that no limit on groups or distinct values has cut. -/
def Analysis.Uncapped (a : Analysis) : Prop := a.dimCapped = false ∧ a.distinctCapped = false

def Stores.Spread (fromMs toMs : ℤ) (stores : Stores) : Prop :=
  1 < (collectShards fromMs toMs stores).length

instance : Decidable (stores.Spread fromMs toMs) := inferInstanceAs (Decidable (_ < _))

/-- How often a column counts as distinct: an empty value counts in a single shard only. -/
def distinctOf (spread : Prop) [Decidable spread] (column : Row → Option String)
    (rows : List Row) : ℕ :=
  if spread then ((rows.filterMap column).toFinset.erase "").card
  else (rows.filterMap column).toFinset.card

theorem capped_distinctSql (column : Row → Option String) (rows : List Row) :
    Capped distinctCap ((rows.filterMap column).toFinset.erase "")
      (distinctSql column rows).toFinset := by
  have hvalues : ((rows.filterMap column).filter (· ≠ "")).toFinset =
      (rows.filterMap column).toFinset.erase "" := by
    refine Finset.ext fun v ↦ ?_
    rw [List.mem_toFinset, List.mem_filter, decide_eq_true_eq, Finset.mem_erase, List.mem_toFinset,
      and_comm]
  rw [← hvalues]
  exact capped_take _

theorem foldl_union_erase {column : Row → Option String} (parts : List (List Row)) :
    parts.foldl (fun out rows ↦ out ∪ (rows.filterMap column).toFinset.erase "") ∅ =
      (parts.flatten.filterMap column).toFinset.erase "" := by
  refine Finset.ext fun v ↦ ?_
  simp only [mem_foldl_union, Finset.notMem_empty, false_or, Finset.mem_erase, List.mem_toFinset,
    List.mem_filterMap, List.mem_flatten]
  constructor
  · rintro ⟨rows, hrows, hne, r, hr, hv⟩
    exact ⟨hne, r, ⟨rows, hrows, hr⟩, hv⟩
  · rintro ⟨hne, r, ⟨rows, hrows, hr⟩, hv⟩
    exact ⟨rows, hrows, hne, r, hr, hv⟩

theorem toFinset_flatten_distinctSql (column : Row → Option String) (parts : List (List Row)) :
    (parts.map (distinctSql column)).flatten.toFinset =
      parts.foldl (fun out rows ↦ out ∪ (distinctSql column rows).toFinset) ∅ := by
  refine Finset.ext fun v ↦ ?_
  simp only [mem_foldl_union, Finset.notMem_empty, false_or, List.mem_toFinset, List.mem_flatten,
    List.mem_map, exists_exists_and_eq_and]

theorem capped_flatten (column : Row → Option String) (parts : List (List Row)) :
    Capped distinctCap ((parts.flatten.filterMap column).toFinset.erase "")
      (parts.map (distinctSql column)).flatten.toFinset := by
  rw [toFinset_flatten_distinctSql, ← foldl_union_erase]
  exact Capped.foldl (List.forall₂_same.mpr fun rows _ ↦ capped_distinctSql column rows)
    (.refl _ ∅)

theorem capped_fetchOptimized {shards : List ShardInput} (hexact : ∀ shard ∈ shards, shard.Exact)
    (column : Row → Option String) : Capped distinctCap
    (((rowsInRange p fromMs toMs shards).filterMap column).toFinset.erase "")
    (fetchOptimized p fromMs toMs shards (distinctSql column)).flatten.toFinset := by
  have hcapped := capped_flatten column
    (shards.map fun shard ↦ shard.rows.filter (p.inRange fromMs toMs))
  rw [List.map_map] at hcapped
  rw [fetchOptimized_eq hexact]
  exact hcapped

theorem distinctCountAcrossShards_eq {column : Row → Option String}
    (huncapped : (distinctCountAcrossShards p fromMs toMs (collectShards fromMs toMs stores)
      column).2 = false) :
    (distinctCountAcrossShards p fromMs toMs (collectShards fromMs toMs stores) column).1 =
      (((stores.inRange p fromMs toMs).filterMap column).toFinset.erase "").card := by
  have hlt := lt_of_not_ge (of_decide_eq_false huncapped)
  have hcapped := @capped_fetchOptimized p fromMs toMs (collectShards fromMs toMs stores)
    collectShards_exact column
  rw [← rowsInRange_collectShards]
  exact congrArg Finset.card (hcapped.eq_of_le (hcapped.card_lt_iff.mp hlt).le)

theorem sum_summaryRows (models : SummaryRow → ℕ) {column : Row → Option String}
    (hcolumn : ∀ rows, models (summarySql rows) = countDistinct column rows)
    (hspread : ¬stores.Spread fromMs toMs) :
    ((fetchOptimized p fromMs toMs (collectShards fromMs toMs stores) summarySql).map models).sum =
      ((stores.inRange p fromMs toMs).filterMap column).toFinset.card := by
  have hrows : rowsInRange p fromMs toMs (collectShards fromMs toMs stores) =
      stores.inRange p fromMs toMs := rowsInRange_collectShards
  rw [fetchOptimized_eq collectShards_exact, List.map_map]
  rw [Stores.Spread, collectShards, List.length_cons, Nat.lt_add_left_iff_pos] at hspread
  have hnil := List.eq_nil_of_length_eq_zero (Nat.eq_zero_of_not_pos hspread)
  rw [collectShards, hnil] at hrows ⊢
  rw [List.map_singleton, List.sum_singleton, Function.comp_apply, hcolumn, ← hrows, rowsInRange,
    List.flatMap_singleton, countDistinct, List.card_toFinset]

/-- The analysis of records that no limit has cut, from the records in the range. -/
def analysisOf (clock : Clock) (p : AnalysisParams) (fromMs toMs : ℤ) (log : LogScan)
    (skipped : ℕ) (spread : Prop) [Decidable spread] (rows : List Row) : Analysis :=
  let sums := additiveOf clock p fromMs toMs rows
  respond p fromMs toMs log skipped
    ⟨sums.metrics, distinctOf spread (·.model) rows, distinctOf spread (·.ip) rows⟩
    sums.trend.entries sums.dims.entries sums.latencyBuckets sums.ttftBuckets false false

theorem distinctCounts_of_spread (h : stores.Spread fromMs toMs) :
    distinctCounts p fromMs toMs (collectShards fromMs toMs stores) =
      some ((distinctCountAcrossShards p fromMs toMs (collectShards fromMs toMs stores)
          (·.model)).1,
        (distinctCountAcrossShards p fromMs toMs (collectShards fromMs toMs stores) (·.ip)).1,
        (distinctCountAcrossShards p fromMs toMs (collectShards fromMs toMs stores) (·.model)).2 ||
          (distinctCountAcrossShards p fromMs toMs (collectShards fromMs toMs stores) (·.ip)).2) :=
  if_pos h

theorem distinctCounts_of_not_spread (h : ¬stores.Spread fromMs toMs) :
    distinctCounts p fromMs toMs (collectShards fromMs toMs stores) = none := if_neg h

theorem buildAnalysis_eq (hfrom : IsI64 fromMs) (hto : IsI64 toMs) (hle : fromMs ≤ toMs)
    (huncapped : (buildAnalysis clock p fromMs toMs log skipped stores).Uncapped) :
    buildAnalysis clock p fromMs toMs log skipped stores =
      analysisOf clock p fromMs toMs log skipped (stores.Spread fromMs toMs)
        (stores.inRange p fromMs toMs) := by
  obtain ⟨hdims, hdistinct⟩ := huncapped
  have hsums := additive_scanShards collectShards_exact hfrom hto hle hdims
  have hmetrics : (mergeSummaries (scanShards clock p fromMs toMs
      (collectShards fromMs toMs stores)).summaries).metrics = total summaryMetrics _ :=
    mergeSummaries_scanShards collectShards_exact
  rw [rowsInRange_collectShards] at hsums hmetrics
  have hsummary : summaryOf (mergeSummaries (scanShards clock p fromMs toMs
      (collectShards fromMs toMs stores)).summaries)
      (distinctCounts p fromMs toMs (collectShards fromMs toMs stores)) =
      ⟨total summaryMetrics (stores.inRange p fromMs toMs),
        distinctOf (stores.Spread fromMs toMs) (·.model) (stores.inRange p fromMs toMs),
        distinctOf (stores.Spread fromMs toMs) (·.ip) (stores.inRange p fromMs toMs)⟩ := by
    change (distinctCounts p fromMs toMs (collectShards fromMs toMs stores)).any _ = false
      at hdistinct
    by_cases hspread : stores.Spread fromMs toMs
    · rw [distinctCounts_of_spread hspread] at hdistinct ⊢
      obtain ⟨hmodels, hips⟩ := Bool.or_eq_false_iff.mp hdistinct
      rw [distinctOf, distinctOf, if_pos hspread, if_pos hspread, ← hmetrics,
        ← distinctCountAcrossShards_eq hmodels, ← distinctCountAcrossShards_eq hips]
      rfl
    · rw [distinctCounts_of_not_spread hspread, distinctOf, distinctOf, if_neg hspread,
        if_neg hspread, ← hmetrics, ← sum_summaryRows (·.models) (fun _ ↦ rfl) hspread,
        ← sum_summaryRows (·.ips) (fun _ ↦ rfl) hspread]
      rw [summaryOf, mergeSummaries_eq]
      simp only [scanShards, List.map_map]
      rfl
  change respond p fromMs toMs log skipped (summaryOf _ _) (Additive.trend _).entries
    (Additive.dims _).entries (Additive.latencyBuckets _) (Additive.ttftBuckets _) _ _ = _
  have hcapped : (scanShards clock p fromMs toMs (collectShards fromMs toMs stores)).dimCapped =
      false := hdims
  rw [hsummary, hsums, hcapped]
  exact congrArg _ hdistinct

theorem distinctOf_perm {spread : Prop} [Decidable spread] {column : Row → Option String}
    {rows rows' : List Row} (h : rows.Perm rows') :
    distinctOf spread column rows = distinctOf spread column rows' := by
  rw [distinctOf, distinctOf, List.toFinset_eq_of_perm _ _ (h.filterMap column)]

theorem analysisOf_perm {spread : Prop} [Decidable spread] {rows rows' : List Row}
    (h : rows.Perm rows') :
    analysisOf clock p fromMs toMs log skipped spread rows =
      analysisOf clock p fromMs toMs log skipped spread rows' := by
  have hsums : additiveOf clock p fromMs toMs rows = additiveOf clock p fromMs toMs rows' := by
    rw [additiveOf, additiveOf, trendOf, trendOf, dimsOf, dimsOf, histOf, histOf, histOf, histOf]
    rw [total_perm h, total_perm h, total_perm h, total_perm h, total_perm h]
  rw [analysisOf, analysisOf, hsums, distinctOf_perm h, distinctOf_perm h]

theorem distinctOf_inj {spread spread' : Prop} [Decidable spread] [Decidable spread']
    {column : Row → Option String} {rows : List Row} :
    distinctOf spread column rows = distinctOf spread' column rows ↔
      (spread ↔ spread') ∨ ∀ r ∈ rows, column r ≠ some "" := by
  have hcard : ((rows.filterMap column).toFinset.erase "").card =
      (rows.filterMap column).toFinset.card ↔ ∀ r ∈ rows, column r ≠ some "" := by
    constructor
    · intro hcard r hr hempty
      have hmem : "" ∈ (rows.filterMap column).toFinset :=
        List.mem_toFinset.mpr (List.mem_filterMap.mpr ⟨r, hr, hempty⟩)
      exact (Finset.card_erase_lt_of_mem hmem).ne hcard
    · intro hne
      rw [Finset.erase_eq_of_notMem]
      intro hmem
      obtain ⟨r, hr, hempty⟩ := List.mem_filterMap.mp (List.mem_toFinset.mp hmem)
      exact hne r hr hempty
  by_cases hspread : spread <;> by_cases hspread' : spread' <;>
    simp only [distinctOf, hspread, hspread', if_true, if_false, true_or, iff_true, iff_false,
      not_true_eq_false, false_or]
  · exact hcard
  · exact eq_comm.trans hcard

/-- Two distributions of the same records over the stores have the same analysis exactly where
both are queried in one shard, both in several, or no record in the range has an empty model or
IP, which only a single shard counts as a value. -/
theorem buildAnalysis_eq_iff (hrows : stores.rows.Perm stores'.rows) (hfrom : IsI64 fromMs)
    (hto : IsI64 toMs) (hle : fromMs ≤ toMs)
    (huncapped : (buildAnalysis clock p fromMs toMs log skipped stores).Uncapped)
    (huncapped' : (buildAnalysis clock p fromMs toMs log skipped stores').Uncapped) :
    buildAnalysis clock p fromMs toMs log skipped stores =
        buildAnalysis clock p fromMs toMs log skipped stores' ↔
      (stores.Spread fromMs toMs ↔ stores'.Spread fromMs toMs) ∨
        ∀ r ∈ stores.inRange p fromMs toMs, r.model ≠ some "" ∧ r.ip ≠ some "" := by
  have hperm : (stores'.inRange p fromMs toMs).Perm (stores.inRange p fromMs toMs) :=
    (hrows.filter _).symm
  rw [buildAnalysis_eq hfrom hto hle huncapped, buildAnalysis_eq hfrom hto hle huncapped',
    analysisOf_perm hperm]
  have hsummary : analysisOf clock p fromMs toMs log skipped (stores.Spread fromMs toMs)
        (stores.inRange p fromMs toMs) =
      analysisOf clock p fromMs toMs log skipped (stores'.Spread fromMs toMs)
        (stores.inRange p fromMs toMs) ↔
      distinctOf (stores.Spread fromMs toMs) (·.model) (stores.inRange p fromMs toMs) =
          distinctOf (stores'.Spread fromMs toMs) (·.model) (stores.inRange p fromMs toMs) ∧
        distinctOf (stores.Spread fromMs toMs) (·.ip) (stores.inRange p fromMs toMs) =
          distinctOf (stores'.Spread fromMs toMs) (·.ip) (stores.inRange p fromMs toMs) := by
    constructor
    · intro heq
      exact ⟨congrArg (·.summary.models) heq, congrArg (·.summary.ips) heq⟩
    · rintro ⟨hmodels, hips⟩
      rw [analysisOf, hmodels, hips]
      rfl
  rw [hsummary, distinctOf_inj, distinctOf_inj, ← or_and_left]
  simp only [← forall_and]

def epochClock : Clock where
  bucket := fun interval _ ↦ match interval with
    | .hour => "1970-01-01 00"
    | .day => "1970-01-01"
    | .month => "1970-01"
  hourOfDay := fun _ ↦ "00:00"

def unnamed : Row where
  timeMs := some 10
  model := some ""
  status := some 422

def activeOnly : Stores := ⟨[unnamed], []⟩

def archived : Stores := ⟨[], [⟨[unnamed], ⟨0, some 10, some 10⟩, rfl, rfl⟩]⟩

def unnamedAnalysis (stores : Stores) : Analysis :=
  buildAnalysis epochClock {} 0 100 ⟨0, []⟩ 0 stores

theorem buildAnalysis_eq_iff_archived :
    unnamedAnalysis activeOnly = unnamedAnalysis archived ↔
      (activeOnly.Spread 0 100 ↔ archived.Spread 0 100) ∨
        ∀ r ∈ activeOnly.inRange {} 0 100, r.model ≠ some "" ∧ r.ip ≠ some "" :=
  buildAnalysis_eq_iff (.refl _) (by decide) (by decide) (by decide) ⟨rfl, rfl⟩ ⟨rfl, rfl⟩

def answeredIn (tenths : ℕ) : Row where
  toRecord := Aggregate.tenths 10 tenths

/-- Three records, the first in the active store and the others in an archive. -/
def spreadOver (first second third : ℕ) : Stores :=
  ⟨[answeredIn first],
    [⟨[answeredIn second, answeredIn third], ⟨0, some 10, some 10⟩, rfl, rfl⟩]⟩

def Stores.LatencySum (stores : Stores) : ℚ → Prop :=
  Binary64.SumsTo (mergeSummaries
    (scanShards epochClock {} 0 100 (collectShards 0 100 stores)).summaries).metrics.latencySum

/-- A request without a model name counts as one model while it is in the active store alone, and
as none once it is archived. And the shards' sums of latencies are not the same float for every
distribution. -/
theorem empty_model_counted_by_one_shard :
    (activeOnly.rows.Perm archived.rows ∧ (unnamedAnalysis activeOnly).Uncapped ∧
      (unnamedAnalysis archived).Uncapped ∧ (unnamedAnalysis activeOnly).summary.models = 1 ∧
        (unnamedAnalysis archived).summary.models = 0) ∧
    (spreadOver 5634 6627 8418).rows.Perm (spreadOver 6627 8418 5634).rows ∧
      (spreadOver 5634 6627 8418).LatencySum (Binary64.nearest 2067.9) ∧
        (spreadOver 6627 8418 5634).LatencySum (Binary64.nearest 2067.8999999999996) := by
  refine ⟨⟨.refl _, ⟨rfl, rfl⟩, ⟨rfl, rfl⟩, by decide, by decide⟩,
    (List.perm_append_comm : ([answeredIn 5634] ++ [answeredIn 6627, answeredIn 8418]).Perm _), ?_, ?_⟩
  · have hfloat : latencyF64 (fetchOptimized {} 0 100 (collectShards 0 100
        (spreadOver 5634 6627 8418)) fun rows ↦ rows.map (·.toRecord)) = Binary64.nearest 2067.9 := by
      decide +kernel
    exact hfloat ▸ sumsTo_scanShards
  · have hfloat : latencyF64 (fetchOptimized {} 0 100 (collectShards 0 100
        (spreadOver 6627 8418 5634)) fun rows ↦ rows.map (·.toRecord)) =
        Binary64.nearest 2067.8999999999996 := by
      decide +kernel
    exact hfloat ▸ sumsTo_scanShards

end Result

end QueQiao.AnalysisApi
