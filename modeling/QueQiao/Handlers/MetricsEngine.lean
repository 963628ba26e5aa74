import QueQiao.Handlers.MetricsApi

namespace QueQiao.MetricsApi

open Lib.Aggregation Aggregate AnalysisApi
open Lib.Binary64 (FloatSum)

/-- What `execute_queries` reads besides the stores: the clock, the local time zone, the month of
the active store, whether the rollup is used, the JSON functions of SQLite and serde, and what a
sum of floats comes to, which in the code is also for the order of its additions to decide. -/
structure Environment where
  nowMs : ℤ
  zone : Zone
  clock : Clock
  currentMonth : ℤ
  monthStart : ℤ → Option ℤ
  periodStart : MetricPeriod → Option ℤ
  activeMonth : ℤ
  enabled : Bool
  jsonArray : List String → String
  parseArray : String → List String
  sumF64 : FloatSum → ℚ

/-- The file of an archive: path, length and time of modification. -/
structure FileStamp where
  path : String
  len : ℕ
  modified : ℕ
  deriving DecidableEq, Repr

/-- An archive; `rolledUp` tells whether its rollup was built and is still valid. -/
structure ArchiveContents where
  id : String
  rows : List Row
  rolledUp : Bool
  stamp : Option FileStamp

/-- Everything that is stored. The tables of the active store are those that are read once the
rollup has caught up with the given time. A latency is a duration. -/
structure Contents where
  active : List Row
  activeTables : ℤ → Option Tables
  archives : List ArchiveContents
  nodup : ("active" :: archives.map ArchiveContents.id).Nodup
  durations : ∀ archive ∈ archives, ∀ r ∈ archive.rows, ∀ v, r.latencyMs = some v → 0 ≤ v

structure MetricShard where
  id : String
  input : ShardInput
  tables : ℤ → Option Tables
  stamp : Option FileStamp
  activeMonth : Option ℤ

structure Conditions where
  window : Option (ℤ × ℤ)
  filters : MetricFilters
  deriving DecidableEq, Repr

structure JobKey where
  shard : String
  group : GroupBy
  conditions : Conditions
  deriving DecidableEq, Repr

structure Job where
  shard : MetricShard
  full : Bool
  conditions : Conditions
  group : GroupBy
  metrics : List MetricName
  filters : MetricFilters
  fromMs : ℤ
  toMs : ℤ
  rollupDim : Option Dim

structure Sql where
  group : GroupBy
  metrics : List MetricName
  conditions : Conditions
  deriving DecidableEq, Repr

inductive CacheKey
  | active (month : ℤ) (sql : Sql)
  | archive (file : FileStamp) (sql : Sql)
  deriving DecidableEq, Repr

abbrev Cache := CacheKey → Option GroupRows

section Filters

def MetricFilters.normal (filters : MetricFilters) : MetricFilters where
  type := given filters.type
  model := given filters.model
  status := filters.status
  backend := given filters.backend
  ip := given filters.ip
  client := given filters.client
  apikey := given filters.apikey

def buildFiltersFor (filters : MetricFilters) (fromMs toMs : ℤ) (fullShard : Bool) : Conditions where
  window := if fullShard then none else some (fromMs, toMs)
  filters := filters.normal

def MetricFilters.params (filters : MetricFilters) : AnalysisParams where
  type := filters.type
  model := filters.model
  status := filters.status
  backend := filters.backend
  ip := filters.ip
  client := filters.client
  apikey := filters.apikey

def filtersAreEmpty (filters : MetricFilters) : Bool := filters.normal = {}

def Conditions.select (conditions : Conditions) (shard : ShardInput) : List Row :=
  shard.select conditions.filters.params conditions.window

end Filters

variable (env : Environment)

def resolveQueryRange (query : MetricQuery) : ℤ × ℤ :=
  match query.period with
  | some period => ((env.periodStart period).getD env.nowMs, env.nowMs)
  | none =>
    let toMs := query.toMs.getD env.nowMs
    (query.fromMs.getD (saturate (toMs - 7 * dayMs)), toMs)

def activeShard (contents : Contents) : MetricShard where
  id := "active"
  input := ⟨contents.active, none, none, true⟩
  tables := contents.activeTables
  stamp := none
  activeMonth := some env.activeMonth

def archiveShard (archive : ArchiveContents) : MetricShard where
  id := archive.id
  input := ⟨archive.rows, (archive.rows.filterMap (·.timeMs)).min?,
    (archive.rows.filterMap (·.timeMs)).max?, false⟩
  tables := fun _ ↦
    if archive.rolledUp then
      some (build env.zone.localDayMs (archive.rows.map (·.toRecord)))
    else none
  stamp := archive.stamp
  activeMonth := none

def collectShards (contents : Contents) (fromMs toMs : ℤ) : List MetricShard :=
  activeShard env contents :: (contents.archives.map (archiveShard env)).filter fun shard ↦
    shard.input.minMs.any (· ≤ toMs) && shard.input.maxMs.any (fromMs ≤ ·)

def MetricShard.within (fromMs toMs : ℤ) (shard : MetricShard) : Bool :=
  shard.input.isActive || shard.input.minMs.any (· ≤ toMs) && shard.input.maxMs.any (fromMs ≤ ·)

def activeMonthCovered (shard : MetricShard) (fromMs toMs : ℤ) : Bool :=
  shard.input.isActive && shard.activeMonth.any fun month ↦
    month = env.currentMonth && (env.monthStart month).any (fromMs ≤ ·) &&
      decide (saturate (env.nowMs - 5000) ≤ toMs)

def shardIsComplete (shard : MetricShard) (fromMs toMs : ℤ) : Bool :=
  shard.input.isActive && decide (env.nowMs ≤ toMs) && activeMonthCovered env shard fromMs toMs ||
    shard.input.covered fromMs toMs

def rollupDimFor (query : MetricQuery) : Option Dim :=
  if env.enabled then
    match query.groupBy with
    | .single name =>
      if filtersAreEmpty query.filters then
        match dimensionExpr name with
        | some (.column dim) => some dim
        | _ => none
      else none
    | .multiple _ => none
  else none

def dimOf (name : String) : Dimension := (dimensionExpr name).getD (.column .model)

def groupExpression (group : GroupBy) (r : Row) : String :=
  match group with
  | .single name => dimExpr env.clock (dimOf name) r
  | .multiple names => env.jsonArray ((names.take 2).map fun name ↦ dimExpr env.clock (dimOf name) r)

def fetchGroups (group : GroupBy) (metrics : List MetricName) (rows : List Row) : GroupRows :=
  groupsFromRows metrics (groupBy (groupExpression env group)
    (fun rows ↦ columns (some (sqlRequestsCounted rows)) (some (sqlLatencyMax rows)) rows) rows)

def scanGroups (job : Job) : GroupRows :=
  fetchGroups env job.group job.metrics (job.conditions.select job.shard.input)

/-- The rows of the whole days from the rollup, those of the rest of the range from the store. -/
def rollupGroups (shard : MetricShard) (dim : Dim) (group : GroupBy) (filters : MetricFilters)
    (fromMs toMs : ℤ) (metrics : List MetricName) : Option GroupRows :=
  match fullDayBounds env.zone fromMs toMs with
  | none => none
  | some (firstFull, fullEnd) =>
    if fullEnd ≤ firstFull then none
    else
      (shard.tables (fullEnd - 1)).map fun tables ↦
        (correctionWindows fromMs toMs firstFull fullEnd).foldl
          (fun groups window ↦ mergeGroups groups (fetchGroups env group metrics
            ((buildFiltersFor filters window.1 window.2 false).select shard.input)) metrics)
          (groupsFromAcc metrics ((readRange firstFull fullEnd tables).dims dim))

def jobGroups (job : Job) : GroupRows :=
  match job.rollupDim with
  | some dim =>
    (rollupGroups env job.shard dim job.group job.filters job.fromMs job.toMs job.metrics).getD
      (scanGroups env job)
  | none => scanGroups env job

def Job.sql (job : Job) : Sql :=
  ⟨job.group, job.metrics.mergeSort fun a b ↦ a.alias ≤ b.alias, job.conditions⟩

def archiveCacheKey (job : Job) : Option CacheKey :=
  if job.full then
    if job.shard.input.isActive then job.shard.activeMonth.map fun month ↦ .active month job.sql
    else job.shard.stamp.map fun file ↦ .archive file job.sql
  else none

def jobKey (query : MetricQuery) (shard : MetricShard) : JobKey :=
  let range := resolveQueryRange env query
  ⟨shard.id, query.groupBy, buildFiltersFor query.filters range.1 range.2
    (shardIsComplete env shard range.1 range.2)⟩

/-- The job of a query for a shard, as its first query creates it. -/
def newJob (query : MetricQuery) (shard : MetricShard) : Job :=
  let range := resolveQueryRange env query
  { shard := shard
    full := shardIsComplete env shard range.1 range.2
    conditions := (jobKey env query shard).conditions
    group := query.groupBy
    metrics := []
    filters := query.filters
    fromMs := range.1
    toMs := range.2
    rollupDim := rollupDimFor env query }

def Job.require (job : Job) (metrics : List MetricName) : Job :=
  { job with metrics := job.metrics ++ metrics.filter (· ∉ job.metrics) }

abbrev Jobs := List (JobKey × Job)

def Jobs.get (jobs : Jobs) (key : JobKey) : Option Job := (jobs.find? (·.1 = key)).map Prod.snd

/-- The job of the key, created if there is none, gets the metrics of one more query. -/
def addJob (jobs : Jobs) (query : MetricQuery) (shard : MetricShard) : Jobs :=
  let key := jobKey env query shard
  if key ∈ jobs.map Prod.fst then
    jobs.map fun entry ↦
      if entry.1 = key then (entry.1, entry.2.require (requiredMetrics query)) else entry
  else jobs ++ [(key, (newJob env query shard).require (requiredMetrics query))]

def candidates (contents : Contents) (queries : List MetricQuery) : List MetricShard :=
  let ranges := queries.map (resolveQueryRange env)
  collectShards env contents ((ranges.map Prod.fst).min?.getD env.nowMs)
    ((ranges.map Prod.snd).max?.getD env.nowMs)

def queryShards (shards : List MetricShard) (query : MetricQuery) : List MetricShard :=
  let range := resolveQueryRange env query
  shards.filter (·.within range.1 range.2)

def planJobs (shards : List MetricShard) (queries : List MetricQuery) : Jobs :=
  queries.foldl
    (fun jobs query ↦ (queryShards env shards query).foldl
      (fun jobs shard ↦ addJob env jobs query shard) jobs) []

variable (cache : Cache)

def jobResult (job : Job) : GroupRows :=
  ((archiveCacheKey job).bind cache).getD (jobGroups env job)

def mergeJob (jobs : Jobs) (query : MetricQuery) (merged : GroupRows) (shard : MetricShard) :
    GroupRows :=
  match jobs.get (jobKey env query shard) with
  | some job => mergeGroups merged (jobResult env cache job) (requiredMetrics query)
  | none => merged

def mergeJobs (jobs : Jobs) (shards : List MetricShard) (query : MetricQuery) : GroupRows :=
  shards.foldl (mergeJob env cache jobs query) noGroups

def answer (jobs : Jobs) (shards : List MetricShard) (query : MetricQuery) : Rendered :=
  let range := resolveQueryRange env query
  let own := queryShards env shards query
  renderResult env.sumF64 env.parseArray query range.1 range.2 (own.map MetricShard.id)
    (mergeJobs env cache jobs own query)

def executeQueries (contents : Contents) (queries : List MetricQuery) : List (String × Rendered) :=
  let shards := candidates env contents queries
  let jobs := planJobs env shards queries
  queries.map fun query ↦ (query.id, answer env cache jobs shards query)

end QueQiao.MetricsApi
