import QueQiao.Db.AggregateBuild
import QueQiao.Handlers.AnalysisShards

namespace QueQiao.AnalysisApi

open Lib.Aggregation Aggregate

/-- A shard of an analysis with its rollup tables, where those are valid: of an archive, if its
fingerprint is that of the build, and of the active store, if they have caught up. -/
structure RollupShard where
  input : ShardInput
  tables : Option Tables

def AnalysisParams.supports (p : AnalysisParams) : Bool :=
  (given p.type).isNone && (given p.model).isNone && p.status.isNone && (given p.backend).isNone &&
    (given p.ip).isNone && (given p.client).isNone && (given p.apikey).isNone &&
    (given p.errors).isNone

structure ShardScan where
  summary : SummaryAgg
  trend : GroupMap String Metrics
  dims : GroupMap String Metrics
  latencyHist : GroupMap ℤ ℕ
  ttftHist : GroupMap ℤ ℕ
  distinct : Dim → Finset String

def mergeGroups (base extra : GroupMap String Metrics) : GroupMap String Metrics :=
  extra.entries.foldl (fun out entry ↦ out.entry entry.1 entry.2) base

def mergeMap (target extra : GroupMap ℤ ℕ) : GroupMap ℤ ℕ :=
  extra.entries.foldl (fun out entry ↦ out.entry entry.1 entry.2) target

def mergeScan (target extra : ShardScan) : ShardScan where
  summary := { target.summary with metrics := target.summary.metrics + extra.summary.metrics }
  trend := mergeGroups target.trend extra.trend
  dims := mergeGroups target.dims extra.dims
  latencyHist := mergeMap target.latencyHist extra.latencyHist
  ttftHist := mergeMap target.ttftHist extra.ttftHist
  distinct := fun dim ↦ target.distinct dim ∪ extra.distinct dim

def metricsFromAcc (acc : Acc) : Metrics where
  requests := acc.counted
  success := acc.success
  errors := acc.errors
  promptTokens := acc.promptTokens
  completionTokens := acc.completionTokens
  totalTokens := acc.totalTokens
  latencySum := acc.latencySum
  latencyCount := acc.latencyCount
  latencyMax := acc.latencyMax
  ttftSum := acc.ttftSum
  ttftCount := acc.ttftCount

def dimMetricsFromAcc (acc : Acc) : Metrics :=
  { metricsFromAcc acc with requests := acc.rowsAll, latencyMax := acc.latencyMax }

def trendMetricsFromAcc (acc : Acc) : Metrics :=
  { metricsFromAcc acc with requests := 0, latencyMax := 0 }

variable (zone : Zone) (clock : Clock) (p : AnalysisParams)

def distinctValues (shard : ShardInput) (fromMs toMs : ℤ) (column : Row → Option String) :
    Finset String :=
  (fetchOptimized {} fromMs toMs [shard] (distinctSql column)).flatten.toFinset

def distinctColumns (values : (Row → Option String) → Finset String) : Dim → Finset String
  | .model => values (·.model)
  | .ip => values (·.ip)
  | _ => ∅

def scanShard (interval : Interval) (shard : ShardInput) (window : ℤ × ℤ) : ShardScan where
  summary := mergeSummaries
    ((fetchOptimized p window.1 window.2 [shard] summarySql).map summaryFromRow)
  trend := .ofRows ((fetchSliced p window.1 window.2 [shard] (trendSql clock interval)).flatten.map
    fun row ↦ (row.1.getD "", metricsFromRow row.2))
  dims := .ofRows ((fetchSliced p window.1 window.2 [shard]
    (dimsSql clock p.dim (groupCap + 1))).flatten.map fun row ↦ (row.1, metricsFromRow row.2))
  latencyHist := .ofRows
    (fetchOptimized p window.1 window.2 [shard] (latencyHistSql (·.latencyMs))).flatten
  ttftHist := .ofRows
    (fetchOptimized p window.1 window.2 [shard] (latencyHistSql (·.ttftMs))).flatten
  distinct := distinctColumns (distinctValues shard window.1 window.2)

/-- A day that has no label is left out of the trend. -/
def addDay (interval : Interval) (trend : GroupMap String Metrics) (day : ℤ × Acc) :
    GroupMap String Metrics :=
  match zone.localDayLabel day.1 (interval = .month) with
  | some label => trend.entry label (trendMetricsFromAcc day.2)
  | none => trend

def sliceToScan (interval : Interval) (dim : Dim) (slice : Slice) : ShardScan where
  summary :=
    { metrics := metricsFromAcc (slice.days.map (·.2)).sum
      models := (slice.distinct .model).card
      ips := (slice.distinct .ip).card }
  trend := slice.days.foldl (addDay zone interval) 0
  dims := .ofRows ((slice.dims dim).entries.map fun entry ↦ (entry.1, dimMetricsFromAcc entry.2))
  latencyHist := slice.latencyHist
  ttftHist := slice.ttftHist
  distinct := fun dim ↦ (slice.distinct dim).erase ""

variable (fromMs toMs : ℤ)

/-- The whole days from the tables, the rest of the range from the records. -/
def rollShard (interval : Interval) (dim : Dim) (shard : ShardInput) (tables : Tables)
    (firstFull fullEnd : ℤ) : ShardScan :=
  (correctionWindows fromMs toMs firstFull fullEnd).foldl
    (fun scan window ↦ mergeScan scan (scanShard clock p interval shard window))
    (sliceToScan zone interval dim (readRange firstFull fullEnd tables))

def analyseShard (interval : Interval) (dim : Dim) (shard : RollupShard) : Option ShardScan :=
  match fullDayBounds zone fromMs toMs with
  | some (firstFull, fullEnd) =>
    if fullEnd ≤ firstFull then some (scanShard clock p interval shard.input (fromMs, toMs))
    else
      match shard.tables with
      | some tables =>
        some (rollShard zone clock p fromMs toMs interval dim shard.input tables firstFull fullEnd)
      | none =>
        if shard.input.isActive then
          some (scanShard clock p interval shard.input (fromMs, toMs))
        else none
  | none =>
    if shard.input.isActive then some (scanShard clock p interval shard.input (fromMs, toMs))
    else none

structure Data where
  scans : ScanData
  distinctModels : ℕ
  distinctIps : ℕ
  distinctCapped : Bool

def pushScans (scans : List ShardScan) : Data :=
  let values (dim : Dim) : Finset String := scans.foldl (fun out scan ↦ out ∪ scan.distinct dim) ∅
  { scans :=
      { summaries := scans.map (·.summary)
        trend := scans.map (·.trend.entries)
        dims := scans.map (·.dims.entries)
        latencyMaps := scans.map (·.latencyHist)
        ttftMaps := scans.map (·.ttftHist) }
    distinctModels := (values .model).card
    distinctIps := (values .ip).card
    distinctCapped := distinctCap ≤ (values .model).card || distinctCap ≤ (values .ip).card }

def AnalysisParams.rollupDim (enabled : Bool) : Option Dim :=
  match p.step fromMs toMs, p.dim with
  | .hour, _ => none
  | _, .hour => none
  | _, .column dim => if enabled && p.supports then some dim else none

def analyse (enabled : Bool) (shards : List RollupShard) : Option Data :=
  (p.rollupDim fromMs toMs enabled).bind fun dim ↦
    (shards.mapM (analyseShard zone clock p fromMs toMs (p.step fromMs toMs) dim)).map pushScans

/-- `build_analysis`: where the fast path is not taken, the shards are scanned. -/
def buildAnalysisRolled (enabled : Bool) (log : LogScan) (skipped : ℕ)
    (shards : List RollupShard) : Analysis :=
  let inputs := shards.map (·.input)
  match analyse zone clock p fromMs toMs enabled shards with
  | some data =>
    assemble p fromMs toMs log skipped data.scans
      (if 1 < inputs.length then
        some (data.distinctModels, data.distinctIps, data.distinctCapped) else none)
  | none =>
    assemble p fromMs toMs log skipped (scanShards clock p fromMs toMs inputs)
      (distinctCounts p fromMs toMs inputs)

end QueQiao.AnalysisApi
