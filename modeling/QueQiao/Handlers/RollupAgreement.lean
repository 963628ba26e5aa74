import QueQiao.Handlers.AnalysisRollup
import Mathlib.Algebra.Group.Hom.Defs

namespace QueQiao.AnalysisApi

open Lib.Aggregation Lib.Traversal Aggregate

section Accumulators

def summaryHom : Acc →+ Metrics where
  toFun := metricsFromAcc
  map_zero' := rfl
  map_add' _ _ := rfl

def dimHom : Acc →+ Metrics where
  toFun := dimMetricsFromAcc
  map_zero' := rfl
  map_add' _ _ := rfl

def trendHom : Acc →+ Metrics where
  toFun := trendMetricsFromAcc
  map_zero' := rfl
  map_add' _ _ :=
    Metrics.ext rfl rfl rfl rfl rfl rfl rfl rfl (max_self (0 : ℚ≥0)).symm rfl rfl

theorem metricsFromAcc_acc (r : Row) : metricsFromAcc r.toRecord.acc = summaryMetrics r := by
  refine Metrics.ext ?_ ?_ ?_ ?_ ?_ ?_ ?_ ?_ ?_ ?_ ?_ <;>
    first
    | exact Nat.zero_add _
    | exact zero_add _
    | exact max_eq_right zero_le

theorem dimMetricsFromAcc_acc (r : Row) : dimMetricsFromAcc r.toRecord.acc = dimMetrics r := by
  refine Metrics.ext rfl ?_ ?_ ?_ ?_ ?_ ?_ ?_ ?_ ?_ ?_ <;>
    first
    | exact Nat.zero_add _
    | exact zero_add _
    | exact max_eq_right zero_le

theorem trendMetricsFromAcc_acc (r : Row) : trendMetricsFromAcc r.toRecord.acc = trendMetrics r := by
  refine Metrics.ext rfl ?_ ?_ ?_ ?_ ?_ ?_ ?_ rfl ?_ ?_ <;>
    first
    | exact Nat.zero_add _
    | exact zero_add _

end Accumulators

section Slices

variable {zone : Zone} {fromMs toMs firstFull fullEnd : ℤ} {rows : List Row}

def onWholeDays (firstFull fullEnd : ℤ) (rows : List Row) : List Row :=
  rows.filter fun r ↦ inside (firstFull, fullEnd - 1) r.timeMs

def dayOf (zone : Zone) (r : Row) : ℤ := zone.dayStart (r.timeMs.getD 0)

theorem filter_day (h : WholeDays zone fromMs toMs firstFull fullEnd) (r : Row) :
    (r.toRecord.day zone.localDayMs).filter (onDays firstFull fullEnd) =
      if inside (firstFull, fullEnd - 1) r.timeMs then some (dayOf zone r) else none := by
  rw [Record.day, dayOf]
  cases r.timeMs with
  | none => rfl
  | some ms =>
    have hinside : inside (firstFull, fullEnd - 1) (some ms) = true ↔
        firstFull ≤ ms ∧ ms < fullEnd := by
      simp only [inside, Option.any_some, Bool.and_eq_true, decide_eq_true_eq]
      omega
    rw [Option.bind_some, h.filter_onDays, Option.getD_some]
    simp only [hinside]

theorem filter_dated (h : WholeDays zone fromMs toMs firstFull fullEnd) :
    (dated zone.localDayMs (rows.map (·.toRecord))).filter (fun row ↦ onDays firstFull fullEnd row.1) =
      (onWholeDays firstFull fullEnd rows).map fun r ↦ (dayOf zone r, r.toRecord) := by
  have hday (r : Row) : ((r.toRecord.day zone.localDayMs).map fun day ↦ (day, r.toRecord)).filter
      (fun row ↦ onDays firstFull fullEnd row.1) =
      if inside (firstFull, fullEnd - 1) r.timeMs then some (dayOf zone r, r.toRecord) else none := by
    rw [Option.filter_map, Function.comp_def, filter_day h r]
    split <;> rfl
  rw [dated, List.filterMap_map, List.filter_filterMap, onWholeDays, ← List.filterMap_eq_map',
    List.filterMap_filter]
  exact List.filterMap_congr fun r _ ↦ hday r

theorem total_dated {N : Type} [AddCommMonoid N] (h : WholeDays zone fromMs toMs firstFull fullEnd)
    (f : ℤ → Record → N) :
    total (fun row ↦ if onDays firstFull fullEnd row.1 then f row.1 row.2 else 0)
      (dated zone.localDayMs (rows.map (·.toRecord))) =
      total (fun r ↦ f (dayOf zone r) r.toRecord) (onWholeDays firstFull fullEnd rows) := by
  have hfilter : total (fun row ↦ f row.1 row.2) ((dated zone.localDayMs
      (rows.map (·.toRecord))).filter fun row ↦ onDays firstFull fullEnd row.1) = _ := total_filter
  rw [← hfilter, filter_dated h, total_map]

variable (h : WholeDays zone fromMs toMs firstFull fullEnd)

include h

theorem readRange_days :
    (readRange firstFull fullEnd (build zone.localDayMs (rows.map (·.toRecord)))).days =
      (total (fun r ↦ GroupMap.single (dayOf zone r) r.toRecord.acc)
        (onWholeDays firstFull fullEnd rows)).entries := by
  rw [← total_dated h fun day r ↦ GroupMap.single day r.acc]
  refine congrArg GroupMap.entries ?_
  change (GroupMap.ofRows _).select _ = _
  rw [GroupMap.select_ofRows, total_map]
  apply total_congr
  intro row _
  split <;> rfl

theorem readRange_dims (dim : Dim) :
    (readRange firstFull fullEnd (build zone.localDayMs (rows.map (·.toRecord)))).dims dim =
      total (fun r ↦ GroupMap.single (r.dimValue dim) r.toRecord.acc)
        (onWholeDays firstFull fullEnd rows) := by
  rw [← total_dated h fun _ r ↦ GroupMap.single (r.dimValue dim) r.acc]
  change (GroupMap.ofRows _).select _ = _
  rw [GroupMap.select_ofRows, total_flatMap]
  apply total_congr
  intro row _
  rw [total_map]
  by_cases hon : onDays firstFull fullEnd row.1 = true
  · rw [if_pos hon]
    cases dim <;> simp [dims, total, hon, GroupMap.optional]
  · rw [if_neg hon]
    refine total_eq_zero fun dim _ ↦ ?_
    simp only [hon]
    rfl

theorem tables_hist (kind : HistKind) :
    (build zone.localDayMs (rows.map (·.toRecord))).hist firstFull fullEnd kind =
      total (fun r ↦ (r.bucket kind).elim 0 fun bucket ↦ GroupMap.single (bucket : ℤ) 1)
        (onWholeDays firstFull fullEnd rows) := by
  rw [← total_dated h fun _ r ↦ (r.bucket kind).elim 0 fun bucket ↦
    GroupMap.single (bucket : ℤ) 1]
  rw [Tables.hist, build, GroupMap.select_ofRows, total_flatMap]
  apply total_congr
  intro row _
  rw [total_filterMap]
  by_cases hon : onDays firstFull fullEnd row.1 = true
  · rw [if_pos hon]
    cases kind <;> cases hl : row.2.bucket .latency <;> cases ht : row.2.bucket .ttft <;>
      simp [total, hon, hl, ht, GroupMap.optional]
  · rw [if_neg hon]
    refine total_eq_zero fun k _ ↦ ?_
    cases row.2.bucket k with
    | none => rfl
    | some bucket =>
      simp only [Option.map_some, Option.elim_some, hon]
      rfl

variable (zone) in
/-- The label of the trend for a record that is counted by its day. -/
def dayLabel (interval : Interval) (r : Row) : Option String :=
  zone.localDayLabel (dayOf zone r) (interval = .month)

theorem sliceToScan_metrics (interval : Interval) (dim : Dim) :
    (sliceToScan zone interval dim (readRange firstFull fullEnd
      (build zone.localDayMs (rows.map (·.toRecord))))).summary.metrics =
      total summaryMetrics (onWholeDays firstFull fullEnd rows) := by
  change summaryHom (List.sum (List.map _ _)) = _
  rw [readRange_days h, ← total, GroupMap.total_entries fun _ m ↦ m,
    GroupMap.sumOver_total fun _ _ _ ↦ rfl, total_hom]
  apply total_congr
  intro r _
  rw [GroupMap.sumOver_single]
  exact metricsFromAcc_acc r

theorem sliceToScan_trend (interval : Interval) (dim : Dim) :
    (sliceToScan zone interval dim (readRange firstFull fullEnd
      (build zone.localDayMs (rows.map (·.toRecord))))).trend =
      total (fun r ↦ .optional (dayLabel zone interval r) (trendMetrics r))
        (onWholeDays firstFull fullEnd rows) := by
  have hfold (days : List (ℤ × Acc)) (trend : GroupMap String Metrics) :
      days.foldl (addDay zone interval) trend = trend + total (fun day ↦ GroupMap.optional
        (zone.localDayLabel day.1 (interval = .month)) (trendHom day.2)) days := by
    induction days generalizing trend with
    | nil => exact (add_zero _).symm
    | cons day days ih =>
      rw [List.foldl_cons, ih, total_cons, ← add_assoc, addDay]
      congr 1
      cases zone.localDayLabel day.1 (interval = .month) with
      | none => exact (add_zero _).symm
      | some label => rfl
  refine (hfold _ _).trans ?_
  rw [zero_add, readRange_days h,
    GroupMap.total_entries fun day acc ↦ GroupMap.optional (zone.localDayLabel day _) (trendHom acc),
    GroupMap.sumOver_total fun _ _ _ ↦ ?_]
  · apply total_congr
    intro r _
    rw [GroupMap.sumOver_single]
    exact congrArg _ (trendMetricsFromAcc_acc r)
  · rw [map_add, GroupMap.optional_add]

theorem sliceToScan_dims (interval : Interval) (dim : Dim) :
    (sliceToScan zone interval dim (readRange firstFull fullEnd
      (build zone.localDayMs (rows.map (·.toRecord))))).dims =
      total (fun r ↦ .single (r.dimValue dim) (dimMetrics r))
        (onWholeDays firstFull fullEnd rows) := by
  change GroupMap.ofRows (List.map _ (GroupMap.entries _)) = _
  rw [readRange_dims h, GroupMap.ofRows_eq_total, total_map]
  refine (GroupMap.total_entries (fun name acc ↦ GroupMap.single name (dimHom acc)) _).trans ?_
  rw [GroupMap.sumOver_total fun _ _ _ ↦ ?_]
  · apply total_congr
    intro r _
    rw [GroupMap.sumOver_single]
    exact congrArg _ (dimMetricsFromAcc_acc r)
  · rw [map_add, GroupMap.single_add]

def NonNegative (rows : List Row) : Prop :=
  ∀ r ∈ rows, (∀ v, r.latencyMs = some v → 0 ≤ v) ∧ ∀ v, r.ttftMs = some v → 0 ≤ v

omit h in
theorem histogramBucket_eq {v : ℚ} (hv : 0 ≤ v) :
    Record.histogramBucket (some v) = some (histBucket v).toNat ∧ 0 ≤ histBucket v := by
  have hcap : ((histCapMs : ℕ) : ℚ) = ((latencyBucketCapMs : ℤ) : ℚ) := by
    norm_num [histCapMs, latencyBucketCapMs]
  have hwidth : ((histBucketMs : ℕ) : ℚ) = ((latencyBucketMs : ℤ) : ℚ) := by
    norm_num [histBucketMs, latencyBucketMs]
  have hmin : 0 ≤ min v ((latencyBucketCapMs : ℤ) : ℚ) :=
    le_min hv (by norm_num [latencyBucketCapMs])
  have hdiv : 0 ≤ min v ((latencyBucketCapMs : ℤ) : ℚ) / ((latencyBucketMs : ℤ) : ℚ) :=
    div_nonneg hmin (by norm_num [latencyBucketMs])
  rw [Record.histogramBucket, Option.map_some, hcap, hwidth, max_eq_right hmin, histBucket, castInteger,
    if_pos hdiv]
  exact ⟨rfl, Int.floor_nonneg.mpr hdiv⟩

omit h in
theorem total_histogram (values : List (Option ℚ)) (hvalues : ∀ v, some v ∈ values → 0 ≤ v) :
    total (fun value ↦ (Record.histogramBucket value).elim 0 fun bucket ↦
      GroupMap.single (bucket : ℤ) 1) values =
      total (fun value ↦ value.elim 0 fun v ↦ GroupMap.single (histBucket v) 1) values := by
  apply total_congr
  intro value hmem
  cases value with
  | none => rfl
  | some v =>
    obtain ⟨hbucket, hnonneg⟩ := histogramBucket_eq (hvalues v hmem)
    rw [hbucket, Option.elim_some, Option.elim_some, Int.toNat_of_nonneg hnonneg]

theorem hist_column (kind : HistKind) {column : Row → Option ℚ}
    (hbucket : ∀ r : Row, r.bucket kind = Record.histogramBucket (column r))
    (hnonneg : ∀ r ∈ rows, ∀ v, column r = some v → 0 ≤ v) :
    (build zone.localDayMs (rows.map (·.toRecord))).hist firstFull fullEnd kind =
      histOf column (onWholeDays firstFull fullEnd rows) := by
  have hvalues := total_histogram
    ((onWholeDays firstFull fullEnd rows).map column) fun v hv ↦ by
      obtain ⟨r, hr, hcolumn⟩ := List.mem_map.mp hv
      exact hnonneg r (List.mem_of_mem_filter hr) v hcolumn
  rw [total_map, total_map] at hvalues
  simp only [tables_hist h kind, hbucket]
  exact hvalues

end Slices

section Scans

variable {clock : Clock} {p : AnalysisParams} {interval : Interval} {shard : ShardInput}
  {window : ℤ × ℤ}

theorem matches_of_supports (h : p.supports = true) (r : Row) : p.matches r = true := by
  simp only [AnalysisParams.supports, Bool.and_eq_true, Option.isNone_iff_eq_none] at h
  obtain ⟨⟨⟨⟨⟨⟨⟨htype, hmodel⟩, hstatus⟩, hbackend⟩, hip⟩, hclient⟩, hapikey⟩, herrors⟩ := h
  have hmode : p.errorMode = false := by
    rw [AnalysisParams.errorMode]
    rw [given, Option.filter_eq_none_iff] at herrors
    cases he : p.errors with
    | none => rfl
    | some v =>
      have hempty := herrors v he
      rw [decide_eq_true_eq, not_not] at hempty
      rw [hempty]
      decide
  simp only [AnalysisParams.matches, htype, hmodel, hstatus, hbackend, hip, hclient, hapikey, hmode,
    Option.all_none, Bool.not_false, Bool.true_or, Bool.and_self]

def inWindow (window : ℤ × ℤ) (rows : List Row) : List Row :=
  rows.filter fun r ↦ inside window r.timeMs

variable (window) in
theorem filter_inRange (h : p.supports = true) (rows : List Row) :
    rows.filter (p.inRange window.1 window.2) = inWindow window rows := by
  apply List.filter_congr
  intro r _
  rw [AnalysisParams.inRange, matches_of_supports h, Bool.and_true]

theorem sum_single_optimized {M β : Type} [AddCommMonoid M] {f : Row → M} {sql : List Row → β}
    (read : β → M) (hread : ∀ rows, read (sql rows) = total f rows) (h : p.supports = true)
    (hexact : shard.Exact) :
    ((fetchOptimized p window.1 window.2 [shard] sql).map read).sum =
      total f (inWindow window shard.rows) := by
  rw [sum_fetchOptimized read hread fun s hs ↦ List.mem_singleton.mp hs ▸ hexact, rowsInRange,
    List.flatMap_singleton, filter_inRange window h]

theorem sum_single_sliced {M β : Type} [AddCommMonoid M] {f : Row → M} {sql : List Row → β}
    (read : β → M) (hread : ∀ rows, read (sql rows) = total f rows) (h : p.supports = true)
    (hexact : shard.Exact) (hfrom : IsI64 window.1) (hto : IsI64 window.2)
    (hle : window.1 ≤ window.2) :
    ((fetchSliced p window.1 window.2 [shard] sql).map read).sum =
      total f (inWindow window shard.rows) := by
  rw [sum_fetchSliced read hread hfrom hto hle fun s hs ↦ List.mem_singleton.mp hs ▸ hexact,
    rowsInRange, List.flatMap_singleton, filter_inRange window h]

variable (h : p.supports = true) (hexact : shard.Exact)

include h hexact

theorem scanShard_metrics : (scanShard clock p interval shard window).summary.metrics =
    total summaryMetrics (inWindow window shard.rows) := by
  rw [scanShard, mergeSummaries_eq, List.map_map]
  exact sum_single_optimized (fun row : SummaryRow ↦ metricsFromRow row.metrics)
    metricsFromRow_summary h hexact

theorem scanShard_hist (column : Row → Option ℚ) :
    GroupMap.ofRows (fetchOptimized p window.1 window.2 [shard] (latencyHistSql column)).flatten =
      histOf column (inWindow window shard.rows) := by
  rw [GroupMap.ofRows_flatten]
  exact sum_single_optimized _ (ofRows_latencyHistSql column) h hexact

variable (hfrom : IsI64 window.1) (hto : IsI64 window.2) (hle : window.1 ≤ window.2)

include hfrom hto hle

theorem scanShard_trend : (scanShard clock p interval shard window).trend =
    total (fun r ↦ .single ((bucketExpr clock interval r).getD "") (trendMetrics r))
      (inWindow window shard.rows) := by
  rw [scanShard, List.map_flatten, GroupMap.ofRows_flatten, List.map_map]
  exact sum_single_sliced (fun rows : List (Option String × Columns) ↦ GroupMap.ofRows
    (rows.map fun row ↦ (row.1.getD "", metricsFromRow row.2)))
    (GroupMap.ofRows_groupBy (fun label : Option String ↦ label.getD "")
      metricsFromRow_trend) h hexact hfrom hto hle

theorem scanShard_dims (hcap : (scanShard clock p interval shard window).dims.keys.card ≤ groupCap) :
    (scanShard clock p interval shard window).dims =
      total (fun r ↦ .single (dimExpr clock p.dim r) (dimMetrics r))
        (inWindow window shard.rows) := by
  have hnodup : ∀ rows ∈ fetchSliced p window.1 window.2 [shard] (dimGroups clock p),
      (rows.map (·.1)).Nodup := by
    intro rows hrows
    rw [fetchSliced, List.mem_flatMap] at hrows
    obtain ⟨s, -, hrows⟩ := hrows
    obtain ⟨w, -, rfl⟩ := List.mem_map.mp hrows
    exact dimGroups_nodup _
  rw [scanShard, fetchSliced_dimsSql] at hcap ⊢
  have hcut : ∀ rows ∈ fetchSliced p window.1 window.2 [shard] (dimGroups clock p),
      rows.take (groupCap + 1) = rows := by
    intro rows hrows
    refine List.take_of_length_le (Nat.le_succ_of_le ?_)
    by_contra hlong
    have hsub : ((rows.take (groupCap + 1)).map (·.1)).toFinset ⊆
        (GroupMap.ofRows (dimEntries ((fetchSliced p window.1 window.2 [shard]
          (dimGroups clock p)).map (·.take (groupCap + 1))).flatten)).keys := by
      intro name hname
      rw [GroupMap.keys_ofRows, dimEntries, List.map_map, List.mem_toFinset]
      obtain ⟨row, hrow, rfl⟩ := List.mem_map.mp (List.mem_toFinset.mp hname)
      exact List.mem_map.mpr ⟨row, List.mem_flatten.mpr
        ⟨_, List.mem_map_of_mem hrows, hrow⟩, rfl⟩
    have hcard := (Finset.card_le_card hsub).trans hcap
    rw [List.toFinset_card_of_nodup ((hnodup rows hrows).sublist
      ((List.take_sublist _ _).map _)), List.length_map, List.length_take] at hcard
    omega
  change GroupMap.ofRows (dimEntries (List.flatten _)) = _
  have hflatten (parts : List (List (String × Columns))) :
      dimEntries parts.flatten = (parts.map dimEntries).flatten := List.map_flatten
  rw [List.map_congr_left hcut, List.map_id', hflatten, GroupMap.ofRows_flatten, List.map_map]
  exact sum_single_sliced (fun rows ↦ GroupMap.ofRows (dimEntries rows)) ofRows_dims h hexact
    hfrom hto hle

end Scans

section Shard

variable {zone : Zone} {clock : Clock} {p : AnalysisParams} {fromMs toMs firstFull fullEnd : ℤ}
  {interval : Interval} {dim : Dim} {shard : RollupShard} {scan : ShardScan}

/-- The tables of a shard say of the whole days of the range what its records say. -/
def RollupShard.UpToDate (zone : Zone) (fromMs toMs : ℤ) (shard : RollupShard) : Prop :=
  ∀ tables firstFull fullEnd, shard.tables = some tables →
    fullDayBounds zone fromMs toMs = some (firstFull, fullEnd) →
      readRange firstFull fullEnd tables = readRange firstFull fullEnd
        (build zone.localDayMs (shard.input.rows.map (·.toRecord)))

def RollupShard.wholeDays (zone : Zone) (fromMs toMs : ℤ) (shard : RollupShard) :
    Option (ℤ × ℤ) :=
  if shard.tables.isSome then
    (fullDayBounds zone fromMs toMs).filter fun days ↦ days.1 < days.2
  else none

/-- The label of the trend for a record on the fast path: that of its day on a whole day, and
elsewhere that of the query. -/
def rollupLabel (zone : Zone) (clock : Clock) (interval : Interval) (days : Option (ℤ × ℤ))
    (r : Row) : Option String :=
  if days.any fun d ↦ inside (d.1, d.2 - 1) r.timeMs then dayLabel zone interval r
  else some ((bucketExpr clock interval r).getD "")

/-- What a scan of some records holds, with the label of each. -/
structure ShardScan.Totals (clock : Clock) (p : AnalysisParams) (label : Row → Option String)
    (rows : List Row) (scan : ShardScan) : Prop where
  metrics : scan.summary.metrics = total summaryMetrics rows
  trend : scan.trend = total (fun r ↦ .optional (label r) (trendMetrics r)) rows
  dims : scan.dims = dimsOf clock p rows
  latencyHist : scan.latencyHist = histOf (·.latencyMs) rows
  ttftHist : scan.ttftHist = histOf (·.ttftMs) rows

theorem mergeGroups_eq (base extra : GroupMap String Metrics) :
    mergeGroups base extra = base + extra := by
  rw [mergeGroups, GroupMap.foldl_entry, ← GroupMap.ofRows_eq_total, GroupMap.ofRows_entries]

theorem mergeMap_eq (target extra : GroupMap ℤ ℕ) : mergeMap target extra = target + extra := by
  rw [mergeMap, GroupMap.foldl_entry, ← GroupMap.ofRows_eq_total, GroupMap.ofRows_entries]

theorem foldl_mergeScan {M : Type} [AddCommMonoid M] {c : ShardScan → M}
    (hc : ∀ a b, c (mergeScan a b) = c a + c b) (scan : ℤ × ℤ → ShardScan)
    (windows : List (ℤ × ℤ)) (base : ShardScan) :
    c (windows.foldl (fun out window ↦ mergeScan out (scan window)) base) =
      c base + total (fun window ↦ c (scan window)) windows := by
  induction windows generalizing base with
  | nil => exact (add_zero _).symm
  | cons window windows ih => rw [List.foldl_cons, ih, hc, total_cons, add_assoc]

theorem mem_correctionWindows (h : WholeDays zone fromMs toMs firstFull fullEnd)
    (hlt : firstFull < fullEnd) {window : ℤ × ℤ}
    (hw : window ∈ correctionWindows fromMs toMs firstFull fullEnd) :
    fromMs ≤ window.1 ∧ window.1 ≤ window.2 ∧ window.2 ≤ toMs ∧
      (window.2 < firstFull ∨ fullEnd ≤ window.1) := by
  have hfrom := h.from_le
  have hto := h.le_to
  rw [correctionWindows, List.mem_append] at hw
  rcases hw with hw | hw <;> split at hw <;> simp only [List.mem_singleton, List.not_mem_nil] at hw
  · subst hw
    simp only
    omega
  · subst hw
    simp only
    omega

theorem rollShard_total {M : Type} [AddCommMonoid M] {c : ShardScan → M}
    (hc : ∀ a b, c (mergeScan a b) = c a + c b) {f : Row → M} {rows : List Row}
    (h : WholeDays zone fromMs toMs firstFull fullEnd) (hlt : firstFull < fullEnd)
    {base : ShardScan} {scan : ℤ × ℤ → ShardScan}
    (hbase : c base = total f (onWholeDays firstFull fullEnd rows))
    (hscan : ∀ window ∈ correctionWindows fromMs toMs firstFull fullEnd,
      c (scan window) = total f (inWindow window rows)) :
    c ((correctionWindows fromMs toMs firstFull fullEnd).foldl
      (fun out window ↦ mergeScan out (scan window)) base) =
      total f (inWindow (fromMs, toMs) rows) := by
  rw [foldl_mergeScan hc, hbase, total_congr hscan]
  obtain ⟨before, after, hwindows, htiles⟩ := h.tiles hlt
  have htotal := htiles.total_eq (f := f) rows (·.timeMs)
  rw [List.map_append, List.map_cons, List.sum_append, List.sum_cons,
    Int.add_sub_cancel] at htotal
  rw [hwindows, total_append, add_left_comm]
  exact htotal

variable (clock) in
theorem dimExpr_column (r : Row) : dimExpr clock (.column dim) r = r.dimValue dim := by
  have hcoalesce (raw : Option String) : coalesceUnknown raw = normalizeDim raw := by
    cases raw with
    | none => rfl
    | some value =>
      rw [coalesceUnknown, normalizeDim, Option.filter_some]
      by_cases hempty : value = ""
      · rw [if_pos hempty, if_neg (by simp [hempty])]
        rfl
      · rw [if_neg hempty, if_pos (by simp [hempty])]
        rfl
  cases dim <;>
    first
    | rfl
    | exact hcoalesce _

variable (hsupports : p.supports = true) (hexact : shard.input.Exact) (hfrom : IsI64 fromMs)
  (hto : IsI64 toMs) (hle : fromMs ≤ toMs)

include hsupports hexact hfrom hto hle

theorem scanShard_totals
    (hcap : (scanShard clock p interval shard.input (fromMs, toMs)).dims.keys.card ≤ groupCap) :
    (scanShard clock p interval shard.input (fromMs, toMs)).Totals clock p
      (rollupLabel zone clock interval none) (inWindow (fromMs, toMs) shard.input.rows) where
  metrics := scanShard_metrics hsupports hexact
  trend := scanShard_trend hsupports hexact hfrom hto hle
  dims := scanShard_dims hsupports hexact hfrom hto hle hcap
  latencyHist := scanShard_hist hsupports hexact (·.latencyMs)
  ttftHist := scanShard_hist hsupports hexact (·.ttftMs)

omit hfrom hto hle in
theorem rollShard_metrics (h : WholeDays zone fromMs toMs firstFull fullEnd)
    (hlt : firstFull < fullEnd) {tables : Tables}
    (htables : readRange firstFull fullEnd tables = readRange firstFull fullEnd
      (build zone.localDayMs (shard.input.rows.map (·.toRecord)))) :
    (rollShard zone clock p fromMs toMs interval dim shard.input tables firstFull
      fullEnd).summary.metrics = total summaryMetrics (inWindow (fromMs, toMs) shard.input.rows) := by
  rw [rollShard, htables]
  exact rollShard_total (c := (·.summary.metrics)) (fun _ _ ↦ rfl) h hlt
    (sliceToScan_metrics h interval dim) fun _ _ ↦ scanShard_metrics hsupports hexact

omit hle in
theorem rollShard_totals (h : WholeDays zone fromMs toMs firstFull fullEnd)
    (hlt : firstFull < fullEnd) (hdim : p.dim = .column dim) {tables : Tables}
    (htables : readRange firstFull fullEnd tables = readRange firstFull fullEnd
      (build zone.localDayMs (shard.input.rows.map (·.toRecord))))
    (hnonneg : NonNegative shard.input.rows)
    (hcap : (rollShard zone clock p fromMs toMs interval dim shard.input tables firstFull
      fullEnd).dims.keys.card ≤ groupCap) :
    (rollShard zone clock p fromMs toMs interval dim shard.input tables firstFull
      fullEnd).Totals clock p (rollupLabel zone clock interval (some (firstFull, fullEnd)))
        (inWindow (fromMs, toMs) shard.input.rows) := by
  have hwindow {window : ℤ × ℤ} (hw : window ∈ correctionWindows fromMs toMs firstFull fullEnd) :
      IsI64 window.1 ∧ IsI64 window.2 ∧ window.1 ≤ window.2 := by
    obtain ⟨hlo, horder, hhi, -⟩ := mem_correctionWindows h hlt hw
    simp only [IsI64] at *
    omega
  have hmetrics : (rollShard zone clock p fromMs toMs interval dim shard.input tables firstFull
      fullEnd).summary.metrics = _ := rollShard_metrics hsupports hexact h hlt htables
  rw [rollShard, htables] at hcap hmetrics ⊢
  have hdims : ∀ window ∈ correctionWindows fromMs toMs firstFull fullEnd,
      (scanShard clock p interval shard.input window).dims.keys.card ≤ groupCap := by
    intro window hw
    refine (Finset.card_le_card ?_).trans hcap
    rw [foldl_mergeScan (c := (·.dims)) (fun _ _ ↦ mergeGroups_eq _ _), GroupMap.keys_add]
    refine Finset.Subset.trans ?_ Finset.subset_union_right
    exact GroupMap.keys_subset_total
      (g := fun window ↦ (scanShard clock p interval shard.input window).dims) hw
  constructor
  · exact hmetrics
  · refine rollShard_total (c := (·.trend)) (fun _ _ ↦ mergeGroups_eq _ _) h hlt ?_ ?_
    · refine (sliceToScan_trend h interval dim).trans (total_congr fun r hr ↦ ?_)
      rw [rollupLabel, Option.any_some, if_pos (List.mem_filter.mp hr).2]
    · intro window hw
      obtain ⟨hlo, hhi, horder⟩ := hwindow hw
      refine (scanShard_trend hsupports hexact hlo hhi horder).trans (total_congr fun r hr ↦ ?_)
      have hin := (List.mem_filter.mp hr).2
      obtain ⟨-, -, -, hapart⟩ := mem_correctionWindows h hlt hw
      rw [rollupLabel, Option.any_some, if_neg]
      · rfl
      · intro hday
        cases htime : r.timeMs with
        | none =>
          rw [htime] at hin
          cases hin
        | some ms =>
          rw [htime, inside, Option.any_some, Bool.and_eq_true, decide_eq_true_eq,
            decide_eq_true_eq] at hin hday
          omega
  · refine rollShard_total (c := (·.dims)) (fun _ _ ↦ mergeGroups_eq _ _) h hlt ?_ ?_
    · refine (sliceToScan_dims h interval dim).trans (total_congr fun r _ ↦ ?_)
      rw [hdim, dimExpr_column]
    · intro window hw
      obtain ⟨hlo, hhi, horder⟩ := hwindow hw
      exact scanShard_dims hsupports hexact hlo hhi horder (hdims window hw)
  · exact rollShard_total (c := (·.latencyHist)) (fun _ _ ↦ mergeMap_eq _ _) h hlt
      (hist_column h .latency (fun _ ↦ rfl) fun r hr ↦ (hnonneg r hr).1)
      fun _ _ ↦ scanShard_hist hsupports hexact (·.latencyMs)
  · exact rollShard_total (c := (·.ttftHist)) (fun _ _ ↦ mergeMap_eq _ _) h hlt
      (hist_column h .ttft (fun _ ↦ rfl) fun r hr ↦ (hnonneg r hr).2)
      fun _ _ ↦ scanShard_hist hsupports hexact (·.ttftMs)

omit hsupports hexact hfrom hto hle in
/-- What the fast path does with a shard: it scans the range, or it reads the whole days of it from
the tables. -/
theorem analyseShard_eq_some
    (hscan : analyseShard zone clock p fromMs toMs interval dim shard = some scan) :
    shard.wholeDays zone fromMs toMs = none ∧
        scan = scanShard clock p interval shard.input (fromMs, toMs) ∨
      ∃ tables firstFull fullEnd, shard.tables = some tables ∧
        fullDayBounds zone fromMs toMs = some (firstFull, fullEnd) ∧ firstFull < fullEnd ∧
          shard.wholeDays zone fromMs toMs = some (firstFull, fullEnd) ∧
            scan = rollShard zone clock p fromMs toMs interval dim shard.input tables firstFull
              fullEnd := by
  rw [analyseShard] at hscan
  cases hbounds : fullDayBounds zone fromMs toMs with
  | none =>
    rw [hbounds] at hscan
    have hnone : shard.wholeDays zone fromMs toMs = none := by
      rw [RollupShard.wholeDays, hbounds]
      exact ite_self _
    simp only at hscan
    split at hscan
    · exact .inl ⟨hnone, (Option.some.inj hscan).symm⟩
    · cases hscan
  | some days =>
    obtain ⟨firstFull, fullEnd⟩ := days
    rw [hbounds] at hscan
    simp only at hscan
    split at hscan
    · rename_i hempty
      have hfilter : (some (firstFull, fullEnd)).filter (fun days ↦ days.1 < days.2) = none := by
        rw [Option.filter_some, decide_eq_false (not_lt.mpr hempty), if_neg Bool.false_ne_true]
      refine .inl ⟨?_, (Option.some.inj hscan).symm⟩
      rw [RollupShard.wholeDays, hbounds, hfilter]
      exact ite_self _
    · rename_i hlt
      rw [not_le] at hlt
      cases htables : shard.tables with
      | none =>
        rw [htables] at hscan
        simp only at hscan
        split at hscan
        · refine .inl ⟨?_, (Option.some.inj hscan).symm⟩
          rw [RollupShard.wholeDays, htables]
          rfl
        · cases hscan
      | some tables =>
        rw [htables] at hscan
        refine .inr ⟨tables, firstFull, fullEnd, rfl, rfl, hlt, ?_, (Option.some.inj hscan).symm⟩
        rw [RollupShard.wholeDays, htables, hbounds, Option.isSome_some, if_pos rfl,
          Option.filter_some, if_pos (decide_eq_true hlt)]

theorem analyseShard_totals (huptodate : shard.UpToDate zone fromMs toMs)
    (hdim : p.dim = .column dim) (hnonneg : NonNegative shard.input.rows)
    (hscan : analyseShard zone clock p fromMs toMs interval dim shard = some scan)
    (hcap : scan.dims.keys.card ≤ groupCap) :
    scan.Totals clock p (rollupLabel zone clock interval (shard.wholeDays zone fromMs toMs))
      (inWindow (fromMs, toMs) shard.input.rows) := by
  obtain ⟨hnone, rfl⟩ | ⟨tables, firstFull, fullEnd, htables, hbounds, hlt, hdays, rfl⟩ :=
    analyseShard_eq_some hscan
  · rw [hnone]
    exact scanShard_totals hsupports hexact hfrom hto hle hcap
  · rw [hdays]
    exact rollShard_totals hsupports hexact hfrom hto (wholeDays_of_fullDayBounds hbounds) hlt hdim
      (huptodate tables firstFull fullEnd htables hbounds) hnonneg hcap

end Shard

section Endpoint

variable {zone : Zone} {clock : Clock} {p : AnalysisParams} {fromMs toMs : ℤ} {enabled : Bool}
  {shards shards' : List RollupShard} {data : Data}

theorem rollupDim_eq_some {dim : Dim} (h : p.rollupDim fromMs toMs enabled = some dim) :
    p.supports = true ∧ p.dim = .column dim := by
  rw [AnalysisParams.rollupDim] at h
  split at h
  · cases h
  · cases h
  · rename_i dim' hdim _
    split at h
    · rename_i hpath
      obtain rfl := Option.some.inj h
      exact ⟨(Bool.and_eq_true _ _ ▸ hpath).2, hdim⟩
    · cases h

theorem analyse_eq_some : analyse zone clock p fromMs toMs enabled shards = some data ↔
    ∃ dim scans, p.rollupDim fromMs toMs enabled = some dim ∧ data = pushScans scans ∧
      List.Forall₂ (fun shard scan ↦ analyseShard zone clock p fromMs toMs (p.step fromMs toMs)
        dim shard = some scan) shards scans := by
  rw [analyse, Option.bind_eq_some_iff]
  constructor
  · rintro ⟨dim, hdim, h⟩
    obtain ⟨scans, hscans, rfl⟩ := Option.map_eq_some_iff.mp h
    exact ⟨dim, scans, hdim, rfl, mapM_eq_some.mp hscans⟩
  · rintro ⟨dim, scans, hdim, rfl, hscans⟩
    exact ⟨dim, hdim, Option.map_eq_some_iff.mpr ⟨scans, mapM_eq_some.mpr hscans, rfl⟩⟩

theorem sum_of_forall₂ {M : Type} [AddCommMonoid M] {c : ShardScan → M} {f : RollupShard → M}
    {scans : List ShardScan} (h : List.Forall₂ (fun shard scan ↦ c scan = f shard) shards scans) :
    (scans.map c).sum = total f shards := by
  induction h with
  | nil => rfl
  | cons heq _ ih => rw [List.map_cons, List.sum_cons, heq, ih, total_cons]

def rollupTrend (zone : Zone) (clock : Clock) (p : AnalysisParams) (fromMs toMs : ℤ)
    (shards : List RollupShard) : GroupMap String Metrics :=
  total (fun shard ↦ total (fun r ↦ .optional (rollupLabel zone clock (p.step fromMs toMs)
    (shard.wholeDays zone fromMs toMs) r) (trendMetrics r))
      (inWindow (fromMs, toMs) shard.input.rows)) shards

def windowRows (fromMs toMs : ℤ) (shards : List RollupShard) : List Row :=
  shards.flatMap fun shard ↦ inWindow (fromMs, toMs) shard.input.rows

theorem rowsInRange_eq (h : p.supports = true) :
    rowsInRange p fromMs toMs (shards.map (·.input)) = windowRows fromMs toMs shards := by
  rw [rowsInRange, List.flatMap_map, windowRows]
  congr 1
  funext shard
  exact filter_inRange (fromMs, toMs) h shard.input.rows

theorem additive_analyse (hfrom : IsI64 fromMs) (hto : IsI64 toMs) (hle : fromMs ≤ toMs)
    (hexact : ∀ shard ∈ shards, shard.input.Exact)
    (huptodate : ∀ shard ∈ shards, shard.UpToDate zone fromMs toMs)
    (hnonneg : ∀ shard ∈ shards, NonNegative shard.input.rows)
    (hdata : analyse zone clock p fromMs toMs enabled shards = some data)
    (huncapped : data.scans.dimCapped = false) :
    data.scans.additive =
      { additiveOf clock p fromMs toMs (windowRows fromMs toMs shards) with
        trend := rollupTrend zone clock p fromMs toMs shards } := by
  obtain ⟨dim, scans, hpath, rfl, hscans⟩ := analyse_eq_some.mp hdata
  obtain ⟨hsupports, hdim⟩ := rollupDim_eq_some hpath
  have hlength : ∀ scan ∈ scans, scan.dims.entries.length ≤ groupCap := by
    intro scan hscan
    have h := List.any_eq_false.mp huncapped _ (List.mem_map_of_mem (f := (·.dims.entries)) hscan)
    rw [decide_eq_true_eq, not_lt] at h
    exact h
  have htotals : List.Forall₂ (fun shard scan ↦ scan.Totals clock p
      (rollupLabel zone clock (p.step fromMs toMs) (shard.wholeDays zone fromMs toMs))
      (inWindow (fromMs, toMs) shard.input.rows)) shards scans := by
    refine List.forall₂_iff_get.mpr ⟨hscans.length_eq, fun i hi hi' ↦ ?_⟩
    have hshard := List.get_mem shards ⟨i, hi⟩
    have hcap := hlength _ (List.get_mem scans ⟨i, hi'⟩)
    rw [GroupMap.entries, List.length_map, Finset.length_sort] at hcap
    exact analyseShard_totals hsupports (hexact _ hshard) hfrom hto hle (huptodate _ hshard) hdim
      (hnonneg _ hshard) ((List.forall₂_iff_get.mp hscans).2 i hi hi') hcap
  have hsum {M : Type} [AddCommMonoid M] {c : ShardScan → M} {f : Row → M}
      (hc : ∀ {label rows scan}, ShardScan.Totals clock p label rows scan → c scan = total f rows) :
      (scans.map c).sum = total f (windowRows fromMs toMs shards) := by
    rw [windowRows, total_flatMap]
    exact sum_of_forall₂ (htotals.imp fun _ _ h ↦ hc h)
  have htake : scans.map ((·.take groupCap) ∘ (·.dims.entries)) = scans.map (·.dims.entries) :=
    List.map_congr_left fun scan hscan ↦ List.take_of_length_le (hlength scan hscan)
  have hentries (c : ShardScan → GroupMap String Metrics) :
      mergeGroupMap (scans.map fun scan ↦ (c scan).entries) = (scans.map c).sum := by
    rw [mergeGroupMap, GroupMap.ofRows_flatten, List.map_map]
    exact congrArg List.sum (List.map_congr_left fun scan _ ↦ GroupMap.ofRows_entries _)
  have hmetrics := hsum (c := (·.summary.metrics)) fun h ↦ h.metrics
  have hdims := hsum (c := (·.dims)) fun h ↦ h.dims
  have hlatency := hsum (c := (·.latencyHist)) fun h ↦ h.latencyHist
  have httft := hsum (c := (·.ttftHist)) fun h ↦ h.ttftHist
  have htrend : (scans.map (·.trend)).sum = rollupTrend zone clock p fromMs toMs shards :=
    sum_of_forall₂ (htotals.imp fun _ _ h ↦ h.trend)
  rw [ScanData.additive, additiveOf, pushScans]
  simp only [mergeSummaries_eq, mergeHistogramMaps_eq, List.map_map, htake, hentries, hdims,
    hlatency, httft, htrend]
  exact congrArg (Additive.mk · _ _ _ _) hmetrics

end Endpoint

end QueQiao.AnalysisApi
