import QueQiao.Handlers.MetricsAlone
import QueQiao.Lib.TimedCache

namespace QueQiao.MetricsApi

open Lib.TimedCache
open AnalysisApi (dayMs)

def archiveTtl : ℕ := 7 * 24 * 3600 * 1000
def activeTtl : ℕ := 3600 * 1000
def capacity : ℕ := 64

def ttl (active : Bool) : ℕ := if active then activeTtl else archiveTtl

abbrev StoredGroups := Lib.TimedCache.Cache CacheKey GroupRows

/-- A request for metrics, with the time it is served at and what is stored then. -/
structure Batch where
  time : ℕ
  env : Environment
  contents : Contents
  queries : List MetricQuery

def Batch.jobs (b : Batch) : Jobs :=
  planJobs b.env (candidates b.env b.contents b.queries) b.queries

def Batch.answers (b : Batch) (stored : StoredGroups) : List (String × Rendered) :=
  executeQueries b.env (stored.get b.time ·) b.contents b.queries

/-- What is in the cache was fetched for its key by a job of a request. -/
def Fetched (bs : List Batch) (key : CacheKey) (e : Lib.TimedCache.Entry GroupRows) : Prop :=
  ∃ b ∈ bs, ∃ entry ∈ b.jobs, archiveCacheKey entry.2 = some key ∧
    e = ⟨b.time, ttl entry.2.shard.input.isActive, jobGroups b.env entry.2⟩

/-- What does not change between two requests: how groups are named, and the archives under their
stamps. -/
structure Steady (b b' : Batch) : Prop where
  clock : b.env.clock = b'.env.clock
  jsonArray : b.env.jsonArray = b'.env.jsonArray
  archives : ∀ archive ∈ b.contents.archives, ∀ archive' ∈ b'.contents.archives, ∀ file,
    archive.stamp = some file → archive'.stamp = some file → archive.rows = archive'.rows

section Archives

variable {b b' : Batch} {entry entry' : JobKey × Job}

end Archives

end QueQiao.MetricsApi
