import QueQiao.Handlers.DistinctAgreement
import QueQiao.Handlers.StreamLoggers

namespace QueQiao.AnalysisApi

open Lib.Aggregation Aggregate StreamLoggers

section Stored

/-- `try_into` to an `i32`, with zero where it fails. -/
def toI32 (n : ℕ) : ℤ := if n < 2147483648 then n else 0

/-- The token counts that `log_non_streaming_request` stores of a response: both names of the parts
are read, and one name of the total. -/
def storedTokens (responseBody : Json) (r : Row) : Row :=
  let usage := responseBody.get "usage"
  let counts := (usage.map usageCounts).getD (none, none)
  { r with
    promptTokens := some (toI32 (counts.2.getD 0))
    completionTokens := some (toI32 (counts.1.getD 0))
    totalTokens := some (toI32 ((usage.bind (count · "total_tokens")).getD 0)) }

end Stored

section Listed

def addI64 (a b : ℤ) : ℤ := (a + b).bmod 18446744073709551616

/-- `tokens` of the record list, with the total last. -/
def tokens (r : Record) : ℤ × ℤ × ℤ :=
  let prompt := r.promptTokens.getD 0
  let completion := r.completionTokens.getD 0
  let total := r.totalTokens.getD 0
  (prompt, completion, if total = 0 then addI64 prompt completion else total)

def repaired (r : Record) : ℤ :=
  if r.totalTokens.getD 0 = 0 then addI64 (r.promptTokens.getD 0) (r.completionTokens.getD 0) else 0

theorem tokens_total (r : Record) : (tokens r).2.2 = r.totalTokens.getD 0 + repaired r := by
  rw [tokens, repaired]
  by_cases hzero : r.totalTokens.getD 0 = 0
  · rw [if_pos hzero, if_pos hzero, hzero, zero_add]
  · rw [if_neg hzero, if_neg hzero, add_zero]

def Counts (r : Record) : Prop :=
  (0 ≤ r.promptTokens.getD 0 ∧ r.promptTokens.getD 0 < 2147483648) ∧
    0 ≤ r.completionTokens.getD 0 ∧ r.completionTokens.getD 0 < 2147483648

/-- No total is missing: where it is, there are no tokens at all. -/
def Totalled (r : Record) : Prop :=
  r.totalTokens.getD 0 = 0 → r.promptTokens.getD 0 = 0 ∧ r.completionTokens.getD 0 = 0

theorem toI32_bounds (n : ℕ) : 0 ≤ toI32 n ∧ toI32 n < 2147483648 := by
  rw [toI32]
  split <;> omega

theorem storedTokens_counts (responseBody : Json) (r : Row) :
    Counts (storedTokens responseBody r).toRecord :=
  ⟨toI32_bounds _, toI32_bounds _⟩

theorem addI64_eq {a b : ℤ} (ha : 0 ≤ a ∧ a < 2147483648) (hb : 0 ≤ b ∧ b < 2147483648) :
    addI64 a b = a + b := by
  rw [addI64, Int.bmod_def, Int.emod_eq_of_lt (by omega) (by omega), if_pos (by omega)]

theorem repaired_nonneg {r : Record} (h : Counts r) : 0 ≤ repaired r := by
  rw [repaired]
  split
  · rw [addI64_eq h.1 h.2]
    exact add_nonneg h.1.1 h.2.1
  · exact le_rfl

theorem repaired_eq_zero_iff {r : Record} (h : Counts r) : repaired r = 0 ↔ Totalled r := by
  rw [repaired, Totalled]
  by_cases hzero : r.totalTokens.getD 0 = 0
  · rw [if_pos hzero, addI64_eq h.1 h.2]
    have hprompt := h.1.1
    have hcompletion := h.2.1
    omega
  · rw [if_neg hzero]
    exact iff_of_true rfl fun h ↦ absurd h hzero

def Stores.listedTokens (p : AnalysisParams) (fromMs toMs : ℤ) (stores : Stores) : ℤ :=
  total (fun r ↦ (tokens r.toRecord).2.2) (stores.inRange p fromMs toMs)

def Stores.repairedTokens (p : AnalysisParams) (fromMs toMs : ℤ) (stores : Stores) : ℤ :=
  total (fun r ↦ repaired r.toRecord) (stores.inRange p fromMs toMs)

end Listed

section Summaries

variable {zone : Zone} {clock : Clock} {p : AnalysisParams} {fromMs toMs : ℤ} {enabled : Bool}
  {interval : Interval} {dim : Dim} {log : LogScan} {skipped : ℕ} {stores : Stores}
  {shard : RollupShard} {shards : List RollupShard} {scan : ShardScan}

theorem analyseShard_metrics (hsupports : p.supports = true) (hexact : shard.input.Exact)
    (huptodate : shard.UpToDate zone fromMs toMs)
    (hscan : analyseShard zone clock p fromMs toMs interval dim shard = some scan) :
    scan.summary.metrics = total summaryMetrics (inWindow (fromMs, toMs) shard.input.rows) := by
  rcases analyseShard_eq_some hscan with
    ⟨-, rfl⟩ | ⟨tables, firstFull, fullEnd, htables, hbounds, hlt, -, rfl⟩
  · exact scanShard_metrics hsupports hexact
  · exact rollShard_metrics hsupports hexact (wholeDays_of_fullDayBounds hbounds) hlt
      (huptodate tables firstFull fullEnd htables hbounds)

theorem summaryOf_metrics (merged : SummaryAgg) (distinct : Option (ℕ × ℕ × Bool)) :
    (summaryOf merged distinct).metrics = merged.metrics := by
  cases distinct <;> rfl

theorem summary_metrics (hstores : shards.map (·.input) = collectShards fromMs toMs stores)
    (huptodate : ∀ shard ∈ shards, shard.UpToDate zone fromMs toMs) :
    (buildAnalysisRolled zone clock p fromMs toMs enabled log skipped shards).summary.metrics =
      total summaryMetrics (stores.inRange p fromMs toMs) := by
  have hexact : ∀ shard ∈ shards, shard.input.Exact := by
    intro shard hshard
    exact collectShards_exact shard.input (hstores ▸ List.mem_map_of_mem hshard)
  rw [← rowsInRange_collectShards, ← hstores, buildAnalysisRolled]
  cases hdata : analyse zone clock p fromMs toMs enabled shards with
  | none =>
    refine (summaryOf_metrics _ _).trans (mergeSummaries_scanShards fun input hinput ↦ ?_)
    obtain ⟨shard, hshard, rfl⟩ := List.mem_map.mp hinput
    exact hexact shard hshard
  | some data =>
    obtain ⟨dim, scans, hpath, rfl, hscans⟩ := analyse_eq_some.mp hdata
    obtain ⟨hsupports, -⟩ := rollupDim_eq_some hpath
    refine (summaryOf_metrics _ _).trans ?_
    rw [rowsInRange_eq hsupports, windowRows, total_flatMap, pushScans, mergeSummaries_eq,
      List.map_map]
    refine sum_of_forall₂ (c := (·.summary.metrics)) ?_
    refine List.forall₂_iff_get.mpr ⟨hscans.length_eq, fun i hi hi' ↦ ?_⟩
    have hshard := List.get_mem shards ⟨i, hi⟩
    exact analyseShard_metrics hsupports (hexact _ hshard) (huptodate _ hshard)
      ((List.forall₂_iff_get.mp hscans).2 i hi hi')

def totalTokensHom : Metrics →+ ℤ where
  toFun := (·.totalTokens)
  map_zero' := rfl
  map_add' _ _ := rfl

theorem listedTokens_eq (hstores : shards.map (·.input) = collectShards fromMs toMs stores)
    (huptodate : ∀ shard ∈ shards, shard.UpToDate zone fromMs toMs) :
    stores.listedTokens p fromMs toMs =
      (buildAnalysisRolled zone clock p fromMs toMs enabled log skipped
        shards).summary.metrics.totalTokens + stores.repairedTokens p fromMs toMs := by
  have hsummary := congrArg totalTokensHom
    (@summary_metrics zone clock p fromMs toMs enabled log skipped stores shards hstores huptodate)
  rw [total_hom] at hsummary
  rw [Stores.listedTokens, total_congr fun r _ ↦ tokens_total r.toRecord, total_add]
  exact congrArg (· + stores.repairedTokens p fromMs toMs) hsummary.symm

theorem repairedTokens_eq_zero_iff (hcounts : ∀ r ∈ stores.inRange p fromMs toMs, Counts r.toRecord) :
    stores.repairedTokens p fromMs toMs = 0 ↔
      ∀ r ∈ stores.inRange p fromMs toMs, Totalled r.toRecord := by
  rw [Stores.repairedTokens, total_eq_zero_iff fun r hr ↦ repaired_nonneg (hcounts r hr)]
  exact forall₂_congr fun r hr ↦ repaired_eq_zero_iff (hcounts r hr)

/-- The list and the summary agree on the total tokens of a range exactly where what the list
repairs adds up to nothing. If the stored numbers are counts, that is where each record without a
total has no tokens. -/
theorem listedTokens_eq_summary_iff
    (hstores : shards.map (·.input) = collectShards fromMs toMs stores)
    (huptodate : ∀ shard ∈ shards, shard.UpToDate zone fromMs toMs) :
    (stores.listedTokens p fromMs toMs =
        (buildAnalysisRolled zone clock p fromMs toMs enabled log skipped
          shards).summary.metrics.totalTokens ↔
      stores.repairedTokens p fromMs toMs = 0) ∧
    ((∀ r ∈ stores.inRange p fromMs toMs, Counts r.toRecord) →
      (stores.listedTokens p fromMs toMs =
          (buildAnalysisRolled zone clock p fromMs toMs enabled log skipped
            shards).summary.metrics.totalTokens ↔
        ∀ r ∈ stores.inRange p fromMs toMs, Totalled r.toRecord)) := by
  rw [listedTokens_eq hstores huptodate, add_eq_left]
  exact ⟨Iff.rfl, repairedTokens_eq_zero_iff⟩

/-- The record of a response with some usage, stored at noon of the first day. -/
def answeredWith (usage : List (String × Json)) : Row :=
  storedTokens (.obj [("usage", .obj usage)]) (answered 43200000)

def openAiUsage : List (String × Json) :=
  [("prompt_tokens", .num 10), ("completion_tokens", .num 5), ("total_tokens", .num 15)]

def messagesUsage : List (String × Json) := [("input_tokens", .num 10), ("output_tokens", .num 5)]

def firstDay (enabled : Bool) (r : Row) : Analysis :=
  buildAnalysisRolled utc (strftime utc) daily 0 86399999 enabled ⟨0, []⟩ 0 (activeShard [r])

def activeStore (r : Row) : Stores := ⟨[r], []⟩

theorem listedTokens_eq_summary_iff_openAi :
    ((activeStore (answeredWith openAiUsage)).listedTokens daily 0 86399999 =
        (firstDay true (answeredWith openAiUsage)).summary.metrics.totalTokens ↔
      (activeStore (answeredWith openAiUsage)).repairedTokens daily 0 86399999 = 0) ∧
    ((∀ r ∈ (activeStore (answeredWith openAiUsage)).inRange daily 0 86399999, Counts r.toRecord) →
      ((activeStore (answeredWith openAiUsage)).listedTokens daily 0 86399999 =
          (firstDay true (answeredWith openAiUsage)).summary.metrics.totalTokens ↔
        ∀ r ∈ (activeStore (answeredWith openAiUsage)).inRange daily 0 86399999,
          Totalled r.toRecord)) :=
  listedTokens_eq_summary_iff rfl (activeShard_upToDate _)

/-- A response of the Messages protocol has fifteen tokens in the list and none in the summary, with
the fast path and without. -/
theorem messages_total_not_summed :
    (answeredWith messagesUsage).toRecord =
        { (answered 43200000).toRecord with
          promptTokens := some 10, completionTokens := some 5, totalTokens := some 0 } ∧
      (activeShard [answeredWith messagesUsage]).map (·.input) =
        collectShards 0 86399999 (activeStore (answeredWith messagesUsage)) ∧
      (∀ shard ∈ activeShard [answeredWith messagesUsage], shard.UpToDate utc 0 86399999) ∧
      (activeStore (answeredWith messagesUsage)).listedTokens daily 0 86399999 = 15 ∧
      (analyse utc (strftime utc) daily 0 86399999 true
        (activeShard [answeredWith messagesUsage])).isSome ∧
      ∀ enabled, (firstDay enabled (answeredWith messagesUsage)).summary.metrics.totalTokens = 0 :=
  ⟨by decide +kernel, rfl, activeShard_upToDate _, by decide +kernel, rfl, by decide +kernel⟩

end Summaries

end QueQiao.AnalysisApi
