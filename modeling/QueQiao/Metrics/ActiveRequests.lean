import QueQiao.Config.Types

namespace QueQiao

structure ActiveRequestLabels where
  endpoint : String
  model : String
  backend : String
  deriving DecidableEq, Repr

/-- The values of `ACTIVE_REQUESTS`: a label that was never touched reads zero. -/
abbrev Gauge := ActiveRequestLabels → ℤ

namespace Gauge

def empty : Gauge := fun _ ↦ 0

def add (labels : ActiveRequestLabels) (n : ℤ) (gauge : Gauge) : Gauge :=
  fun l ↦ if l = labels then gauge l + n else gauge l

end Gauge

def incActiveRequests (labels : ActiveRequestLabels) : Gauge → Gauge := Gauge.add labels 1

def decActiveRequests (labels : ActiveRequestLabels) : Gauge → Gauge := Gauge.add labels (-1)

def getActiveCountsForClients (gauge : Gauge) (clients : List ClientConfig) (modelName : String)
    (endpoint : Option String) : List (String × ℤ) :=
  let ep := endpoint.getD "unknown"
  clients.map fun client ↦ (client.name, gauge ⟨ep, modelName, client.name⟩)

theorem lookup_getActiveCounts {gauge : Gauge} {clients : List ClientConfig} {client : ClientConfig}
    (h : client ∈ clients) (modelName : String) (endpoint : Option String) :
    (getActiveCountsForClients gauge clients modelName endpoint).lookup client.name =
      some (gauge ⟨endpoint.getD "unknown", modelName, client.name⟩) := by
  rw [getActiveCountsForClients]
  induction clients with
  | nil => exact absurd h List.not_mem_nil
  | cons c clients ih =>
    simp only [List.map_cons, List.lookup_cons]
    by_cases hname : client.name = c.name
    · simp [hname]
    · have hmem : client ∈ clients := by
        rcases List.mem_cons.mp h with rfl | h
        · exact absurd rfl hname
        · exact h
      simpa only [beq_eq_false_iff_ne.mpr hname] using ih hmem

end QueQiao
