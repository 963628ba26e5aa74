import QueQiao.Handlers.AnalysisRollup

namespace QueQiao.MetricsApi

open Lib.Aggregation Aggregate AnalysisApi
open Lib (Binary64.nearest)
open Lib.Binary64 (FloatSum)

section Request

inductive MetricName
  | requests
  | success
  | errors
  | promptTokens
  | completionTokens
  | totalTokens
  | latencySum
  | latencyCount
  | maxLatency
  | ttftSum
  | ttftCount
  | avgLatency
  | avgTtft
  | successRate
  | errorRate
  deriving DecidableEq, Repr

def MetricName.alias : MetricName → String
  | requests => "requests"
  | success => "success"
  | errors => "errors"
  | promptTokens => "promptTokens"
  | completionTokens => "completionTokens"
  | totalTokens => "totalTokens"
  | latencySum => "latencySum"
  | latencyCount => "latencyCount"
  | maxLatency => "maxLatency"
  | ttftSum => "ttftSum"
  | ttftCount => "ttftCount"
  | avgLatency => "avgLatency"
  | avgTtft => "avgTtft"
  | successRate => "successRate"
  | errorRate => "errorRate"

def MetricName.derived : MetricName → Bool
  | avgLatency | avgTtft | successRate | errorRate => true
  | _ => false

inductive MetricPeriod
  | week
  | month
  | year
  deriving DecidableEq, Repr

inductive GroupBy
  | single (name : String)
  | multiple (names : List String)
  deriving DecidableEq, Repr

def GroupBy.names : GroupBy → List String
  | single name => [name]
  | multiple names => names

structure MetricFilters where
  type : Option String := none
  model : Option String := none
  status : Option ℤ := none
  backend : Option String := none
  ip : Option String := none
  client : Option String := none
  apikey : Option String := none
  deriving DecidableEq, Repr

structure MetricQuery where
  id : String
  period : Option MetricPeriod := none
  fromMs : Option ℤ := none
  toMs : Option ℤ := none
  groupBy : GroupBy := .single "model"
  metrics : List MetricName
  filters : MetricFilters := {}
  orderBy : MetricName := .requests
  limit : ℕ := 100
  deriving DecidableEq, Repr

/-- What a query is merged from: its metrics, the one it is ordered by and those that its derived
ones are computed from. -/
def requiredMetrics (query : MetricQuery) : List MetricName :=
  let required := query.metrics ++ [query.orderBy]
  let required := if .avgLatency ∈ required then required ++ [.latencySum, .latencyCount]
    else required
  let required := if .avgTtft ∈ required then required ++ [.ttftSum, .ttftCount] else required
  let required := if .successRate ∈ required ∨ .errorRate ∈ required then
      required ++ [.requests, .success, .errors]
    else required
  (required.mergeSort fun a b ↦ a.alias ≤ b.alias).dedup

end Request

section Values

/-- A `Real` is one value, or the sum of those that were added. -/
inductive MetricValue
  | integer (value : ℤ)
  | real (value : ℚ)
  | sum (values : FloatSum)
  deriving DecidableEq

/-- Values of two kinds never meet. -/
def MetricValue.combine (maximum : Bool) : MetricValue → MetricValue → MetricValue
  | integer left, integer right => .integer (if maximum then max left right else left + right)
  | real left, real right => if maximum then .real (max left right) else .sum {left, right}
  | sum left, sum right => .sum (left + right)
  | left, _ => left

/-- The metrics of a group; a metric that was not asked for is absent. -/
abbrev Entry := MetricName → Option MetricValue

instance : Zero Entry := ⟨fun _ ↦ none⟩

abbrev GroupRows := GroupMap String Entry

def noGroups : GroupRows := ⟨∅, fun _ ↦ 0, fun _ _ ↦ rfl⟩

def rowMetric (row : Columns) : MetricName → MetricValue
  | .requests => .integer (row.requests.getD 0)
  | .success => .integer row.success
  | .errors => .integer row.errors
  | .promptTokens => .integer row.promptTokens
  | .completionTokens => .integer row.completionTokens
  | .totalTokens => .integer row.totalTokens
  | .latencySum => .sum row.latencySum
  | .latencyCount => .integer row.latencyCount
  | .maxLatency => .real (row.latencyMax.getD 0)
  | .ttftSum => .sum row.ttftSum
  | .ttftCount => .integer row.ttftCount
  | .avgLatency | .avgTtft | .successRate | .errorRate => .real 0

def accMetric (acc : Acc) : MetricName → Option MetricValue
  | .requests => some (.integer acc.counted)
  | .success => some (.integer acc.success)
  | .errors => some (.integer acc.errors)
  | .promptTokens => some (.integer acc.promptTokens)
  | .completionTokens => some (.integer acc.completionTokens)
  | .totalTokens => some (.integer acc.totalTokens)
  | .latencySum => some (.sum acc.latencySum)
  | .latencyCount => some (.integer acc.latencyCount)
  | .maxLatency => some (.real acc.latencyMax)
  | .ttftSum => some (.sum acc.ttftSum)
  | .ttftCount => some (.integer acc.ttftCount)
  | .avgLatency | .avgTtft | .successRate | .errorRate => none

def entryOf (metrics : List MetricName) (row : Columns) : Entry := fun metric ↦
  if metric ∈ metrics ∧ metric.derived = false then some (rowMetric row metric) else none

def accEntry (metrics : List MetricName) (acc : Acc) : Entry := fun metric ↦
  if metric ∈ metrics then accMetric acc metric else none

def groupsFromRows (metrics : List MetricName) (rows : List (String × Columns)) : GroupRows where
  keys := (rows.map Prod.fst).toFinset
  value name := ((rows.find? (·.1 = name)).map fun row ↦ entryOf metrics row.2).getD 0
  value_eq_zero name h := by
    have hnone : rows.find? (·.1 = name) = none := by
      refine List.find?_eq_none.mpr fun row hrow ↦ ?_
      rw [decide_eq_true_eq]
      rintro rfl
      exact h (List.mem_toFinset.mpr (List.mem_map_of_mem hrow))
    rw [hnone]
    rfl

def groupsFromAcc (metrics : List MetricName) (values : GroupMap String Acc) : GroupRows where
  keys := values.keys
  value name := if name ∈ values.keys then accEntry metrics (values.value name) else 0
  value_eq_zero _ h := if_neg h

def mergeValue (metric : MetricName) : Option MetricValue → Option MetricValue → Option MetricValue
  | some current, some value => some (current.combine (metric = .maxLatency) value)
  | none, value => value
  | current, none => current

def mergeGroups (merged groups : GroupRows) (metrics : List MetricName) : GroupRows where
  keys := merged.keys ∪ groups.keys
  value name metric :=
    if metric ∈ metrics then mergeValue metric (merged.value name metric) (groups.value name metric)
    else merged.value name metric
  value_eq_zero name h := by
    rw [Finset.mem_union, not_or] at h
    rw [merged.value_eq_zero name h.1, groups.value_eq_zero name h.2]
    funext metric
    exact ite_self _

end Values

section Render

-- what a sum of floats comes to
variable (float : FloatSum → ℚ)

def MetricValue.number : MetricValue → ℚ
  | integer value => Binary64.nearest value
  | real value => value
  | sum values => float values

def metricNumber (values : Entry) (metric : MetricName) : ℚ :=
  ((values metric).map (MetricValue.number float)).getD 0

def average (values : Entry) (sum count : MetricName) : Option ℚ :=
  if 0 < metricNumber float values count then
    some (Binary64.nearest (metricNumber float values sum / metricNumber float values count))
  else none

def derivedMetric (values : Entry) : MetricName → Option ℚ
  | .avgLatency => average float values .latencySum .latencyCount
  | .avgTtft => average float values .ttftSum .ttftCount
  | .successRate => average float values .success .requests
  | .errorRate => average float values .errors .requests
  | _ => none

def metricValue (values : Entry) (metric : MetricName) : ℚ :=
  if metric.derived then (derivedMetric float values metric).getD 0
  else metricNumber float values metric

/-- A number of the response: an integer, or a float that can be missing. -/
def jsonValue (values : Entry) (metric : MetricName) : Option MetricValue :=
  if metric.derived then (derivedMetric float values metric).map .real
  else some ((values metric).getD (.integer 0))

structure Item where
  groups : List (String × String)
  metrics : List (String × Option MetricValue)
  deriving DecidableEq

structure Rendered where
  fromMs : ℤ
  toMs : ℤ
  groupBy : GroupBy
  items : List Item
  shards : List String
  deriving DecidableEq

variable (parseArray : String → List String)

def itemGroups (group : GroupBy) (name : String) : List (String × String) :=
  match group with
  | .single group => [(group, name)]
  | .multiple groups => groups.zip (parseArray name)

def renderItem (query : MetricQuery) (item : String × Entry) : Item where
  groups := itemGroups parseArray query.groupBy item.1
  metrics := query.metrics.map fun metric ↦ (metric.alias, jsonValue float item.2 metric)

def sortItems (query : MetricQuery) (merged : GroupRows) : List (String × Entry) :=
  ((merged.keys.sort (· ≤ ·)).map fun name ↦ (name, merged.value name)).mergeSort
    fun a b ↦ metricValue float b.2 query.orderBy ≤ metricValue float a.2 query.orderBy

def renderResult (query : MetricQuery) (fromMs toMs : ℤ) (shards : List String)
    (merged : GroupRows) : Rendered where
  fromMs := fromMs
  toMs := toMs
  groupBy := query.groupBy
  items := ((sortItems float query merged).take query.limit).map (renderItem float parseArray query)
  shards := shards

end Render

end QueQiao.MetricsApi
