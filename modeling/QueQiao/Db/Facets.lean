import Mathlib.Data.String.Basic
import QueQiao.Db.CaughtUp
import QueQiao.Lib.FirstValues

namespace QueQiao.Aggregate

open Lib.Transition Lib.FirstValues

structure Facets where
  models : List String
  types : List String
  backends : List String
  clients : List String
  deriving DecidableEq

def Facets.list (facets : Facets) : Dim → List String
  | .model => facets.models
  | .type => facets.types
  | .backend => facets.backends
  | .client => facets.clients
  | .apikey | .ip | .status => []

variable (localDayMs : Calendar)

section Lemmas

variable {localDayMs} {records : List Record} {dim : Dim} {day : ℤ} {v : String}

end Lemmas

theorem CaughtUpInv.tables_eq {s : System} {neededMs : ℤ} (h : CaughtUpInv localDayMs s)
    (hdescribes : Describes localDayMs s s.active neededMs)
    (hcaught : activeCaughtUp s s.active neededMs = true) :
    s.rollup.tables = aggregate localDayMs ((s.records s.active).take s.rollup.lastId) := by
  rw [(h.countsOnce hdescribes hcaught).tables_eq, filterMap_range]

end QueQiao.Aggregate
