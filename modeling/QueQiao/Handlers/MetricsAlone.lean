import QueQiao.Handlers.MetricsBatch

namespace QueQiao.MetricsApi

open Lib.Aggregation Aggregate AnalysisApi
open Lib.Binary64 (FloatSum)

variable {env : Environment} {queries : List MetricQuery} {query first : MetricQuery} {time : ℤ}

section OneRow

def rowAt (time : ℤ) : Row where
  timeMs := some time

theorem durations_nil : ∀ archive ∈ ([] : List ArchiveContents), ∀ r ∈ archive.rows, ∀ v,
    r.latencyMs = some v → 0 ≤ v := fun _ h ↦ absurd h List.not_mem_nil

def oneRow (env : Environment) (time : ℤ) : Contents where
  active := [rowAt time]
  activeTables _ := some (build env.zone.localDayMs [(rowAt time).toRecord])
  archives := []
  nodup := List.nodup_singleton _
  durations := durations_nil

end OneRow

section Batches

def february : Environment where
  nowMs := 41 * dayMs
  zone := ⟨0, -1000 * dayMs, 1000 * dayMs⟩
  clock := epochClock
  currentMonth := 197002
  monthStart month := if month = 197002 then some (31 * dayMs) else none
  periodStart _ := none
  activeMonth := 197002
  enabled := true
  jsonArray names := String.intercalate "," names
  parseArray _ := []
  sumF64 _ := 0

end Batches

end QueQiao.MetricsApi
