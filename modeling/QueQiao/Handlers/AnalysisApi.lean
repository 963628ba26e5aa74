import QueQiao.Db.Archive
import QueQiao.Lib.Aggregation
import QueQiao.Lib.Binary64
import Mathlib.Data.String.Basic

namespace QueQiao.AnalysisApi

open Lib Lib.Aggregation Aggregate Archive
open Lib.Binary64 (FloatSum)

/-- A record with the columns that only a filter and the ranking of errors read. -/
structure Row extends Record where
  userAgent : Option String := none
  error : Option String := none
  deriving DecidableEq, Repr

section Params

def hourMs : ℤ := 3600000
def dayMs : ℤ := 86400000
def monthMs : ℤ := 2592000000
def maxBuckets : ℕ := 400
def groupCap : ℕ := 5000
def countCap : ℕ := 10000
def distinctCap : ℕ := 10000
def latencyBucketMs : ℤ := 50
def latencyBucketCapMs : ℤ := 60000

inductive Interval
  | hour
  | day
  | month
  deriving DecidableEq, Repr

def Interval.name : Interval → String
  | hour => "hour"
  | day => "day"
  | month => "month"

inductive Dimension
  | column (dim : Dim)
  | hour
  deriving DecidableEq, Repr

structure AnalysisParams where
  type : Option String := none
  model : Option String := none
  status : Option ℤ := none
  backend : Option String := none
  ip : Option String := none
  client : Option String := none
  apikey : Option String := none
  errors : Option String := none
  interval : Option String := none
  dimension : Option String := none
  orderBy : Option String := none
  page : Option ℤ := none
  pageSize : Option ℤ := none
  topLimit : Option ℤ := none
  deriving DecidableEq, Repr

def i64Min : ℤ := -9223372036854775808
def i64Max : ℤ := 9223372036854775807

def IsI64 (n : ℤ) : Prop := i64Min ≤ n ∧ n ≤ i64Max

instance (n : ℤ) : Decidable (IsI64 n) := inferInstanceAs (Decidable (_ ∧ _))

def saturate (n : ℤ) : ℤ := max i64Min (min i64Max n)

theorem saturate_eq {n : ℤ} (h : IsI64 n) : saturate n = n := by
  rw [saturate, min_eq_right h.2, max_eq_right h.1]

def autoInterval (span : ℤ) : Interval :=
  if span ≤ 48 * hourMs then .hour else if span ≤ 92 * dayMs then .day else .month

def bucketCount (interval : Interval) (span : ℤ) : ℤ :=
  max span 0 / (match interval with | .hour => hourMs | .day => dayMs | .month => monthMs) + 1

/-- The loop leaves `hour` for `day` and `day` for `month`. -/
def coarsen (interval : Interval) (span : ℤ) : Interval :=
  match interval with
  | .hour =>
    if bucketCount .hour span ≤ maxBuckets then .hour
    else if bucketCount .day span ≤ maxBuckets then .day
    else .month
  | .day => if bucketCount .day span ≤ maxBuckets then .day else .month
  | .month => .month

def effectiveInterval (requested : Option String) (fromMs toMs : ℤ) :
    Interval × Option String :=
  let span := max (saturate (toMs - fromMs)) 0
  let explicit (initial : Interval) : Interval × Option String :=
    let interval := coarsen initial span
    (interval, if interval = initial then none else
      some ("interval auto-coarsened from " ++ initial.name ++ " to " ++ interval.name ++
        " (> " ++ toString maxBuckets ++ " buckets)"))
  if requested = some "hour" then explicit .hour
  else if requested = some "day" then explicit .day
  else if requested = some "month" then explicit .month
  else (autoInterval span, none)

def dimensionExpr (dim : String) : Option Dimension :=
  [("model", Dimension.column .model), ("apikey", .column .apikey), ("ip", .column .ip),
    ("type", .column .type), ("backend", .column .backend), ("client", .column .client),
    ("status", .column .status), ("hour", .hour)].find? (·.1 = dim) |>.map (·.2)

/-- A dimension that is not in the list is read as `model`. -/
def AnalysisParams.dim (p : AnalysisParams) : Dimension :=
  (dimensionExpr (p.dimension.getD "model")).getD (.column .model)

end Params

section Filters

/-- The comparison `NOCASE` and `LIKE` know the case of ASCII letters only. -/
def foldCase (text : String) : String := String.ofList (text.toList.map Char.toLower)

def prefixUpper (value : String) : String := value.push (Char.ofNat 0x10FFFF)

def hasPrefix (value : String) (column : Option String) : Bool :=
  column.any fun text ↦
    !(foldCase text < foldCase value) && foldCase text < foldCase (prefixUpper value)

def likeContains (value : String) (column : Option String) : Bool :=
  column.any fun text ↦ (foldCase value).toList <:+: (foldCase text).toList

def given (value : Option String) : Option String := value.filter (· ≠ "")

def AnalysisParams.errorMode (p : AnalysisParams) : Bool :=
  p.errors.any fun v ↦ v = "1" || foldCase v = "true"

/-- The conditions of `build_filters` on the columns other than `TimeMs`. -/
def AnalysisParams.matches (p : AnalysisParams) (r : Row) : Bool :=
  (given p.type).all (fun v ↦ r.type = some v) &&
    (given p.model).all (fun v ↦ hasPrefix v r.model) &&
    p.status.all (fun v ↦ r.status = some v) &&
    (given p.backend).all (fun v ↦ r.backend = some v) &&
    (given p.ip).all (fun v ↦ hasPrefix v r.ip) &&
    (given p.client).all (fun v ↦ likeContains v r.clientName || likeContains v r.userAgent) &&
    (given p.apikey).all (fun v ↦ r.apiKey = some v) &&
    (!p.errorMode || r.status.any (400 ≤ ·))

end Filters

/-- Counters are exact and unbounded, and a sum of floats is the values that are added.
`latency_max` is only ever added to one that started at zero, so it is kept from there on. -/
@[ext] structure Metrics where
  requests : ℕ := 0
  success : ℕ := 0
  errors : ℕ := 0
  promptTokens : ℤ := 0
  completionTokens : ℤ := 0
  totalTokens : ℤ := 0
  latencySum : FloatSum := 0
  latencyCount : ℕ := 0
  latencyMax : ℚ≥0 := 0
  ttftSum : FloatSum := 0
  ttftCount : ℕ := 0
  deriving DecidableEq

namespace Metrics

def add (a other : Metrics) : Metrics where
  requests := a.requests + other.requests
  success := a.success + other.success
  errors := a.errors + other.errors
  promptTokens := a.promptTokens + other.promptTokens
  completionTokens := a.completionTokens + other.completionTokens
  totalTokens := a.totalTokens + other.totalTokens
  latencySum := a.latencySum + other.latencySum
  latencyCount := a.latencyCount + other.latencyCount
  latencyMax := max a.latencyMax other.latencyMax
  ttftSum := a.ttftSum + other.ttftSum
  ttftCount := a.ttftCount + other.ttftCount

instance : Zero Metrics := ⟨{}⟩
instance : Add Metrics := ⟨add⟩

instance : AddCommMonoid Metrics where
  add_assoc a b c := by
    refine Metrics.ext ?_ ?_ ?_ ?_ ?_ ?_ ?_ ?_ ?_ ?_ ?_ <;>
      first
      | exact add_assoc _ _ _
      | exact max_assoc _ _ _
  zero_add a := by
    refine Metrics.ext ?_ ?_ ?_ ?_ ?_ ?_ ?_ ?_ ?_ ?_ ?_ <;>
      first
      | exact zero_add _
      | exact max_eq_right zero_le
  add_zero a := by
    refine Metrics.ext ?_ ?_ ?_ ?_ ?_ ?_ ?_ ?_ ?_ ?_ ?_ <;>
      first
      | exact add_zero _
      | exact max_eq_left zero_le
  add_comm a b := by
    refine Metrics.ext ?_ ?_ ?_ ?_ ?_ ?_ ?_ ?_ ?_ ?_ ?_ <;>
      first
      | exact add_comm _ _
      | exact max_comm _ _
  nsmul := nsmulRec

end Metrics

section Sql

/-- The local time of `strftime`, for a time in Unix seconds. -/
structure Clock where
  bucket : Interval → ℤ → Option String
  hourOfDay : ℤ → Option String

/-- The aggregate columns of a row. A column that a query does not name is `none`. -/
structure Columns where
  requests : Option ℕ
  success : ℕ
  errors : ℕ
  promptTokens : ℤ
  completionTokens : ℤ
  totalTokens : ℤ
  latencySum : FloatSum
  latencyCount : ℕ
  latencyMax : Option ℚ
  ttftSum : FloatSum
  ttftCount : ℕ

def sqlRequestsCounted (rows : List Row) : ℕ := rows.countP fun r ↦ r.status.any (200 ≤ ·)

def sqlLatencyMax (rows : List Row) : ℚ := ((rows.filterMap (·.latencyMs)).max?).getD 0

def columns (requests : Option ℕ) (latencyMax : Option ℚ) (rows : List Row) : Columns where
  requests := requests
  success := rows.countP fun r ↦ r.status.any fun s ↦ 200 ≤ s && s < 400
  errors := rows.countP fun r ↦ r.status.any (400 ≤ ·)
  promptTokens := (rows.map fun r ↦ r.promptTokens.getD 0).sum
  completionTokens := (rows.map fun r ↦ r.completionTokens.getD 0).sum
  totalTokens := (rows.map fun r ↦ r.totalTokens.getD 0).sum
  latencySum := rows.filterMap (·.latencyMs)
  latencyCount := rows.countP (·.latencyMs.isSome)
  latencyMax := latencyMax
  ttftSum := rows.filterMap (·.ttftMs)
  ttftCount := rows.countP (·.ttftMs.isSome)

/-- `COUNT(DISTINCT column)`, which leaves out no value but `NULL`. -/
def countDistinct (column : Row → Option String) (rows : List Row) : ℕ :=
  (rows.filterMap column).dedup.length

structure SummaryRow where
  metrics : Columns
  models : ℕ
  ips : ℕ

def summarySql (rows : List Row) : SummaryRow where
  metrics := columns (some (sqlRequestsCounted rows)) (some (sqlLatencyMax rows)) rows
  models := countDistinct (·.model) rows
  ips := countDistinct (·.ip) rows

variable (clock : Clock)

/-- SQLite divides integers towards zero. -/
def bucketExpr (interval : Interval) (r : Row) : Option String :=
  r.timeMs.bind fun ms ↦ clock.bucket interval (ms.tdiv 1000)

def trendSql (interval : Interval) (rows : List Row) : List (Option String × Columns) :=
  groupBy (bucketExpr clock interval) (columns none none) rows

def coalesceUnknown (column : Option String) : String := (column.filter (· ≠ "")).getD "Unknown"

def dimExpr (dim : Dimension) (r : Row) : String :=
  match dim with
  | .column .status => (r.status.map toString).getD "Unknown"
  | .column dim => coalesceUnknown (r.raw dim)
  | .hour => (r.timeMs.bind fun ms ↦ clock.hourOfDay (ms.tdiv 1000)).getD "Unknown"

def dimsSql (dim : Dimension) (cap : ℕ) (rows : List Row) : List (String × Columns) :=
  (groupBy (dimExpr clock dim)
    (fun rows ↦ columns (some rows.length) (some (sqlLatencyMax rows)) rows) rows).take cap

def castInteger (x : ℚ) : ℤ := if 0 ≤ x then ⌊x⌋ else ⌈x⌉

def histBucket (value : ℚ) : ℤ :=
  castInteger (min value latencyBucketCapMs / latencyBucketMs)

def latencyHistSql (column : Row → Option ℚ) (rows : List Row) : List (ℤ × ℕ) :=
  groupBy histBucket List.length (rows.filterMap column)

def distinctSql (column : Row → Option String) (rows : List Row) : List String :=
  ((rows.filterMap column).filter (· ≠ "")).dedup.take distinctCap

end Sql

section Aggregation

def metricsFromRow (row : Columns) : Metrics where
  requests := row.requests.getD 0
  success := row.success
  errors := row.errors
  promptTokens := row.promptTokens
  completionTokens := row.completionTokens
  totalTokens := row.totalTokens
  latencySum := row.latencySum
  latencyCount := row.latencyCount
  latencyMax := (row.latencyMax.getD 0).toNNRat
  ttftSum := row.ttftSum
  ttftCount := row.ttftCount

structure SummaryAgg where
  metrics : Metrics := 0
  models : ℕ := 0
  ips : ℕ := 0
  deriving DecidableEq

def summaryFromRow (row : SummaryRow) : SummaryAgg :=
  ⟨metricsFromRow row.metrics, row.models, row.ips⟩

def mergeSummaries (aggs : List SummaryAgg) : SummaryAgg :=
  aggs.foldl (fun out a ↦ ⟨out.metrics + a.metrics, out.models + a.models, out.ips + a.ips⟩) {}

def mergeGroupMap (perShard : List (List (String × Metrics))) : GroupMap String Metrics :=
  GroupMap.ofRows perShard.flatten

def mergeHistogramMaps (maps : List (GroupMap ℤ ℕ)) : List (ℤ × ℕ) :=
  (GroupMap.ofRows (maps.flatMap (·.entries))).entries

/-- The bucket at which the counts reach `rank`, or the last one. -/
def percentileBucket (rank : ℤ) : List (ℤ × ℕ) → ℤ → Option (ℤ × Bool)
  | [], _ => none
  | (bucket, count) :: rest, acc =>
    if rank ≤ acc + count then some (bucket, true)
    else if rest.isEmpty then some (bucket, false)
    else percentileBucket rank rest (acc + count)

/-- `((p * total as f64).ceil() as i64).max(1)`. -/
def percentileRank (total : ℕ) (p : ℚ) : ℤ :=
  max (saturate ⌈Binary64.mul p (Binary64.nearest total)⌉) 1

def percentileMs (buckets : List (ℤ × ℕ)) (total : ℕ) (p : ℚ) : Option ℤ :=
  if total = 0 then none
  else
    (percentileBucket (percentileRank total p) buckets 0).map fun (bucket, reached) ↦
      let upper := saturate ((bucket + 1) * latencyBucketMs)
      if reached then min upper (latencyBucketCapMs + latencyBucketMs) else upper

end Aggregation

section Shards

/-- A shard of a query. `rows` is what its store holds. -/
structure ShardInput where
  rows : List Row
  minMs : Option ℤ
  maxMs : Option ℤ
  isActive : Bool

/-- A registered archive, with the bounds of its `TimeMs` values. -/
structure ArchiveInput where
  rows : List Row
  shard : ArchiveShard
  minMs_eq : shard.minMs = (rows.filterMap (·.timeMs)).min?
  maxMs_eq : shard.maxMs = (rows.filterMap (·.timeMs)).max?

structure Stores where
  active : List Row
  archives : List ArchiveInput

def Stores.rows (stores : Stores) : List Row :=
  stores.active ++ (stores.archives.map (·.rows)).flatten

variable (p : AnalysisParams) (fromMs toMs : ℤ)

def collectShards (stores : Stores) : List ShardInput :=
  ⟨stores.active, none, none, true⟩ ::
    (stores.archives.filter (·.shard.overlaps ⟨some fromMs, some toMs⟩)).map
      fun a ↦ ⟨a.rows, a.shard.minMs, a.shard.maxMs, false⟩

def ShardInput.covered (shard : ShardInput) : Bool :=
  !shard.isActive && shard.minMs.any (fromMs ≤ ·) && shard.maxMs.any (· ≤ toMs)

/-- The rows of a query, either between two times or whose time is not `NULL`. -/
def ShardInput.select (shard : ShardInput) (window : Option (ℤ × ℤ)) : List Row :=
  shard.rows.filter fun r ↦
    (match window with | some tile => inside tile r.timeMs | none => r.timeMs.isSome) &&
      p.matches r

def rangeSlices : List (ℤ × ℤ) :=
  let span := saturate (toMs - fromMs)
  if toMs ≤ fromMs ∨ span < dayMs then [(fromMs, toMs)]
  else
    let splits := max 1 (min 4 (span / dayMs + if span % dayMs ≠ 0 then 1 else 0))
    let step := span / splits
    if splits ≤ 1 ∨ step ≤ 0 then [(fromMs, toMs)]
    else
      (List.range splits.toNat).map fun i : ℕ ↦
        (if i = 0 then fromMs else saturate (fromMs + saturate (i * step)),
          if (i : ℤ) = splits - 1 then toMs
          else saturate (fromMs + saturate ((i + 1) * step)) - 1)

variable {β : Type}

def fetchSliced (shards : List ShardInput) (sql : List Row → β) : List β :=
  shards.flatMap fun shard ↦
    (if shard.covered fromMs toMs then [none] else (rangeSlices fromMs toMs).map some).map
      fun window ↦ sql (shard.select p window)

def fetchOptimized (shards : List ShardInput) (sql : List Row → β) : List β :=
  shards.map fun shard ↦
    sql (shard.select p (if shard.covered fromMs toMs then none else some (fromMs, toMs)))

/-- The number of values, and whether the limit of a query may have cut one off. -/
def distinctCountAcrossShards (shards : List ShardInput) (column : Row → Option String) :
    ℕ × Bool :=
  let set := (fetchOptimized p fromMs toMs shards (distinctSql column)).flatten.toFinset
  (set.card, distinctCap ≤ set.card)

end Shards

section Endpoint

/-- What the scan of the error log returns, which does not read the stores. -/
structure LogScan where
  totalErrorEntries : ℕ
  perBucket : List (String × ℕ)

structure ScanData where
  summaries : List SummaryAgg
  trend : List (List (String × Metrics))
  dims : List (List (String × Metrics))
  latencyMaps : List (GroupMap ℤ ℕ)
  ttftMaps : List (GroupMap ℤ ℕ)

variable (clock : Clock) (p : AnalysisParams) (fromMs toMs : ℤ)

def AnalysisParams.step : Interval := (effectiveInterval p.interval fromMs toMs).1

def scanShards (shards : List ShardInput) : ScanData where
  summaries := (fetchOptimized p fromMs toMs shards summarySql).map summaryFromRow
  trend := (fetchSliced p fromMs toMs shards (trendSql clock (p.step fromMs toMs))).map fun rows ↦
    rows.map fun row ↦ (row.1.getD "Unknown", metricsFromRow row.2)
  dims := (fetchSliced p fromMs toMs shards (dimsSql clock p.dim (groupCap + 1))).map fun rows ↦
    rows.map fun row ↦ (row.1, metricsFromRow row.2)
  latencyMaps := (fetchOptimized p fromMs toMs shards (latencyHistSql (·.latencyMs))).map
    GroupMap.ofRows
  ttftMaps := (fetchOptimized p fromMs toMs shards (latencyHistSql (·.ttftMs))).map GroupMap.ofRows

structure Analysis where
  warnings : List String
  summary : SummaryAgg
  logErrors : ℕ
  trend : List (String × Metrics)
  groups : List (String × Metrics)
  top : List (String × ℕ)
  total : ℕ
  totalExact : Bool
  items : List (String × Metrics)
  latencyBuckets : List (ℤ × ℕ)
  ttftBuckets : List (ℤ × ℕ)
  percentiles : List (Option ℤ)
  dimCapped : Bool
  distinctCapped : Bool
  deriving DecidableEq

def lastBuckets (trend : List (String × Metrics)) : List (String × Metrics) :=
  trend.drop (trend.length - maxBuckets)

/-- The errors of the log are added to the bucket of their label, or are a bucket of their own. -/
def addLogBucket : List (String × Metrics) → String × ℕ → List (String × Metrics)
  | [], (label, count) => [(label, { errors := count })]
  | entry :: trend, (label, count) =>
    if entry.1 = label then
      (entry.1, { entry.2 with errors := entry.2.errors + count }) :: trend
    else entry :: addLogBucket trend (label, count)

def metricValue (orderBy : Option String) (m : Metrics) : ℤ :=
  if orderBy = some "errors" then m.errors
  else if orderBy = some "tokens" then m.totalTokens
  else m.requests

def sortGroups (value : Metrics → ℤ) (groups : List (String × Metrics)) : List (String × Metrics) :=
  groups.mergeSort fun a b ↦ value b.2 < value a.2 || value a.2 = value b.2 && a.1 ≤ b.1

def respond (log : LogScan) (skipped : ℕ) (summary : SummaryAgg)
    (buckets dims : List (String × Metrics)) (latencyBuckets ttftBuckets : List (ℤ × ℕ))
    (dimCapped distinctCapped : Bool) : Analysis :=
  let trend := (log.perBucket.foldl addLogBucket (lastBuckets buckets)).mergeSort
    fun a b ↦ a.1 ≤ b.1
  let all := sortGroups (metricValue p.orderBy) dims
  let groups := all.take countCap
  let pageSize := max 1 (min 200 (p.pageSize.getD 20))
  let start := saturate ((max 1 (p.page.getD 1) - 1) * pageSize)
  let percentile := percentileMs latencyBuckets summary.metrics.latencyCount
  { warnings :=
      (effectiveInterval p.interval fromMs toMs).2.toList ++
      (if 0 < skipped then [toString skipped ++ " legacy/unsupported archive shard(s) skipped"]
        else []) ++
      (if distinctCapped then
        ["distinct model/ip count capped at " ++ toString distinctCap] else []) ++
      (if maxBuckets < buckets.length then
        ["trend capped to last " ++ toString maxBuckets ++ " buckets"] else []) ++
      (if dimCapped then
        ["dimension groups capped at " ++ toString groupCap ++ " per shard"] else [])
    summary := summary
    logErrors := log.totalErrorEntries
    trend := lastBuckets trend
    groups := groups
    top := ((sortGroups (·.requests) all).take (max 1 (min 50 (p.topLimit.getD 8))).toNat).map
      fun entry ↦ (entry.1, entry.2.requests)
    total := min all.length countCap
    totalExact := !dimCapped && all.length ≤ countCap
    items := (groups.drop start.toNat).take pageSize.toNat
    latencyBuckets := latencyBuckets
    ttftBuckets := ttftBuckets
    percentiles := [percentile (Binary64.nearest 0.50), percentile (Binary64.nearest 0.95),
      percentile (Binary64.nearest 0.99),
      percentileMs ttftBuckets summary.metrics.ttftCount (Binary64.nearest 0.95)]
    dimCapped := dimCapped
    distinctCapped := distinctCapped }

/-- The counts of distinct values across the shards replace the sums of the summaries. -/
def summaryOf (merged : SummaryAgg) (distinct : Option (ℕ × ℕ × Bool)) : SummaryAgg :=
  match distinct with
  | some (models, ips, _) => { merged with models := models, ips := ips }
  | none => merged

structure Additive where
  metrics : Metrics
  trend : GroupMap String Metrics
  dims : GroupMap String Metrics
  latencyBuckets : List (ℤ × ℕ)
  ttftBuckets : List (ℤ × ℕ)

def ScanData.additive (data : ScanData) : Additive where
  metrics := (mergeSummaries data.summaries).metrics
  trend := mergeGroupMap data.trend
  dims := mergeGroupMap (data.dims.map (·.take groupCap))
  latencyBuckets := mergeHistogramMaps data.latencyMaps
  ttftBuckets := mergeHistogramMaps data.ttftMaps

def ScanData.dimCapped (data : ScanData) : Bool := data.dims.any (groupCap < ·.length)

def assemble (log : LogScan) (skipped : ℕ) (data : ScanData) (distinct : Option (ℕ × ℕ × Bool)) :
    Analysis :=
  respond p fromMs toMs log skipped (summaryOf (mergeSummaries data.summaries) distinct)
    data.additive.trend.entries data.additive.dims.entries data.additive.latencyBuckets
    data.additive.ttftBuckets data.dimCapped (distinct.any (·.2.2))

/-- The distinct values of several shards; those of one shard stay as its summary counts them. -/
def distinctCounts (shards : List ShardInput) : Option (ℕ × ℕ × Bool) :=
  if 1 < shards.length then
    let models := distinctCountAcrossShards p fromMs toMs shards (·.model)
    let ips := distinctCountAcrossShards p fromMs toMs shards (·.ip)
    some (models.1, ips.1, models.2 || ips.2)
  else none

/-- `build_analysis` where the rollup is not used. -/
def buildAnalysis (log : LogScan) (skipped : ℕ) (stores : Stores) : Analysis :=
  let shards := collectShards fromMs toMs stores
  assemble p fromMs toMs log skipped (scanShards clock p fromMs toMs shards)
    (distinctCounts p fromMs toMs shards)

end Endpoint

end QueQiao.AnalysisApi
