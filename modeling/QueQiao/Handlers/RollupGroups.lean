import QueQiao.Db.LocalDays
import QueQiao.Handlers.MetricsAlone

namespace QueQiao.MetricsApi

open Lib.Aggregation Aggregate AnalysisApi

section Incremental

def applyDeltas (tables delta : Tables) : Tables where
  dayAgg := tables.dayAgg + delta.dayAgg
  dayDim := tables.dayDim + delta.dayDim
  dayDistinct := tables.dayDistinct ∪ delta.dayDistinct
  dayHist := tables.dayHist + delta.dayHist

/-- The tables after some runs, each of which adds the records that it scans. -/
def ensured (localDayMs : Calendar) (batches : List (List Record)) : Tables :=
  batches.foldl (fun tables batch ↦ applyDeltas tables (build localDayMs batch)) (build localDayMs [])

variable {localDayMs : Calendar}

end Incremental

section Rollup

/-- All records are rolled up, in one run or in several. -/
def UpToDate (env : Environment) (shard : MetricShard) : Prop := ∀ neededMs, ∃ batches,
  batches.flatten = shard.input.rows.map (·.toRecord) ∧
    shard.tables neededMs = some (ensured env.zone.localDayMs batches)

variable {env : Environment} {shard : MetricShard} {filters : MetricFilters} {fromMs toMs : ℤ}

end Rollup

end QueQiao.MetricsApi
