import QueQiao.Handlers.RollupDates

namespace QueQiao.AnalysisApi

open Lib.Aggregation Aggregate

section Values

variable {zone : Zone} {clock : Clock} {p : AnalysisParams} {interval : Interval} {dim dim' : Dim}
  {fromMs toMs firstFull fullEnd : ℤ} {window : ℤ × ℤ} {rows : List Row} {shard : ShardInput}

def distinctDims : List Dim := [.model, .ip]

def valuesOf (dim : Dim) (rows : List Row) : Finset String := (rows.filterMap (·.raw dim)).toFinset

theorem mem_valuesOf {v : String} : v ∈ valuesOf dim rows ↔ ∃ r ∈ rows, r.raw dim = some v := by
  rw [valuesOf, List.mem_toFinset, List.mem_filterMap]

theorem readRange_distinct (h : WholeDays zone fromMs toMs firstFull fullEnd)
    (hdim : dim ∈ distinctDims) :
    (readRange firstFull fullEnd (build zone.localDayMs (rows.map (·.toRecord)))).distinct dim =
      valuesOf dim (onWholeDays firstFull fullEnd rows) := by
  have hdated (v : String) : (∃ row ∈ (dated zone.localDayMs (rows.map (·.toRecord))).filter
      (fun row ↦ onDays firstFull fullEnd row.1), row.2.raw dim = some v) ↔
      v ∈ valuesOf dim (onWholeDays firstFull fullEnd rows) := by
    rw [filter_dated h, mem_valuesOf]
    simp only [List.mem_map, exists_exists_and_eq_and]
  refine Finset.ext fun v ↦ ?_
  rw [← hdated]
  simp only [readRange, build, Finset.mem_image, Finset.mem_filter, List.mem_toFinset,
    List.mem_flatMap, List.mem_filterMap, Option.map_eq_some_iff, List.mem_filter]
  constructor
  · rintro ⟨-, ⟨⟨row, hrow, d, -, raw, hraw, rfl⟩, hon, rfl⟩, rfl⟩
    exact ⟨row, ⟨hrow, hon⟩, hraw⟩
  · rintro ⟨row, ⟨hrow, hon⟩, hraw⟩
    exact ⟨(row.1, dim, v), ⟨⟨row, hrow, dim, hdim, v, hraw, rfl⟩, hon, rfl⟩, rfl⟩

theorem capped_distinctValues (hexact : shard.Exact) : Capped distinctCap
    ((valuesOf dim (inWindow window shard.rows)).erase "")
    (distinctValues shard window.1 window.2 (·.raw dim)) := by
  rw [distinctValues, fetchOptimized_eq fun s hs ↦ List.mem_singleton.mp hs ▸ hexact,
    List.map_singleton, List.flatten_singleton, filter_inRange window rfl]
  exact capped_distinctSql _ _

theorem capped_scanShard (hexact : shard.Exact) (hdim : dim ∈ distinctDims) : Capped distinctCap
    ((valuesOf dim (inWindow window shard.rows)).erase "")
    ((scanShard clock p interval shard window).distinct dim) := by
  simp only [distinctDims, List.mem_cons, List.not_mem_nil, or_false] at hdim
  rcases hdim with rfl | rfl
  · exact capped_distinctValues hexact
  · exact capped_distinctValues hexact

theorem distinct_foldl_mergeScan (scan : ℤ × ℤ → ShardScan) (windows : List (ℤ × ℤ))
    (base : ShardScan) :
    (windows.foldl (fun out window ↦ mergeScan out (scan window)) base).distinct dim =
      windows.foldl (fun out window ↦ out ∪ (scan window).distinct dim) (base.distinct dim) := by
  induction windows generalizing base with
  | nil => rfl
  | cons window windows ih => exact ih _

def SummaryAgg.distinct (summary : SummaryAgg) : Dim → ℕ
  | .model => summary.models
  | .ip => summary.ips
  | _ => 0

theorem forall_distinctDims {P : Dim → Prop} : (∀ dim ∈ distinctDims, P dim) ↔ P .model ∧ P .ip := by
  simp only [distinctDims, List.forall_mem_cons, List.not_mem_nil, false_implies, implies_true,
    and_true]

theorem summary_foldl_mergeScan (scan : ℤ × ℤ → ShardScan) (windows : List (ℤ × ℤ))
    (base : ShardScan) :
    (windows.foldl (fun out window ↦ mergeScan out (scan window)) base).summary.distinct dim =
      base.summary.distinct dim := by
  induction windows generalizing base with
  | nil => rfl
  | cons window windows ih =>
    refine (ih _).trans ?_
    cases dim <;> rfl

theorem foldl_valuesOf (h : WholeDays zone fromMs toMs firstFull fullEnd)
    (hlt : firstFull < fullEnd) :
    (correctionWindows fromMs toMs firstFull fullEnd).foldl
        (fun out window ↦ out ∪ (valuesOf dim (inWindow window rows)).erase "")
        ((valuesOf dim (onWholeDays firstFull fullEnd rows)).erase "") =
      (valuesOf dim (inWindow (fromMs, toMs) rows)).erase "" := by
  obtain ⟨before, after, hwindows, htiles⟩ := h.tiles hlt
  have hinside (r : Row) : inside (fromMs, toMs) r.timeMs = true ↔
      inside (firstFull, fullEnd - 1) r.timeMs = true ∨
        ∃ window ∈ correctionWindows fromMs toMs firstFull fullEnd,
          inside window r.timeMs = true := by
    cases r.timeMs with
    | none => simp [inside]
    | some t =>
      have hunion := htiles.union t
      rw [hwindows]
      simp only [List.mem_append, List.mem_cons, or_and_right, exists_or, exists_eq_left] at hunion
      simp only [inside, Option.any_some, Bool.and_eq_true, decide_eq_true_eq, List.mem_append,
        or_and_right, exists_or]
      rw [← Int.lt_add_one_iff (a := t) (b := toMs), ← hunion]
      exact or_left_comm
  refine Finset.ext fun v ↦ ?_
  rw [mem_foldl_union]
  simp only [Finset.mem_erase, mem_valuesOf, onWholeDays, inWindow, List.mem_filter, hinside]
  constructor
  · rintro (⟨hne, r, ⟨hr, hin⟩, hv⟩ | ⟨window, hw, hne, r, ⟨hr, hin⟩, hv⟩)
    · exact ⟨hne, r, ⟨hr, .inl hin⟩, hv⟩
    · exact ⟨hne, r, ⟨hr, .inr ⟨window, hw, hin⟩⟩, hv⟩
  · rintro ⟨hne, r, ⟨hr, hin | ⟨window, hw, hin⟩⟩, hv⟩
    · exact .inl ⟨hne, r, ⟨hr, hin⟩, hv⟩
    · exact .inr ⟨window, hw, hne, r, ⟨hr, hin⟩, hv⟩

theorem mergeSummaries_distinct (aggs : List SummaryAgg) (hdim : dim ∈ distinctDims) :
    (mergeSummaries aggs).distinct dim = (aggs.map (·.distinct dim)).sum := by
  rw [mergeSummaries_eq]
  simp only [distinctDims, List.mem_cons, List.not_mem_nil, or_false] at hdim
  rcases hdim with rfl | rfl <;> rfl

theorem scanned_distinct (hsupports : p.supports = true) (hexact : shard.Exact)
    (hdim : dim ∈ distinctDims) :
    (mergeSummaries ((fetchOptimized p window.1 window.2 [shard] summarySql).map
      summaryFromRow)).distinct dim = (valuesOf dim (inWindow window shard.rows)).card := by
  rw [mergeSummaries_distinct _ hdim,
    fetchOptimized_eq fun s hs ↦ List.mem_singleton.mp hs ▸ hexact, List.map_singleton,
    List.map_singleton, List.map_singleton, List.sum_singleton, filter_inRange window hsupports,
    valuesOf, List.card_toFinset]
  simp only [distinctDims, List.mem_cons, List.not_mem_nil, or_false] at hdim
  rcases hdim with rfl | rfl <;> rfl

end Values

section Shard

variable {zone : Zone} {clock : Clock} {p : AnalysisParams} {interval : Interval} {dim dim' : Dim}
  {fromMs toMs : ℤ} {shard : RollupShard} {scan : ShardScan}

/-- The values of one column in the range all occur on the whole days that are read from the
tables. -/
def RollupShard.OnWholeDays (zone : Zone) (fromMs toMs : ℤ) (dim : Dim) (shard : RollupShard) :
    Prop :=
  ∀ firstFull fullEnd, shard.wholeDays zone fromMs toMs = some (firstFull, fullEnd) →
    ∀ r ∈ inWindow (fromMs, toMs) shard.input.rows, ∀ value, r.raw dim = some value →
      ∃ r' ∈ onWholeDays firstFull fullEnd shard.input.rows, r'.raw dim = some value

variable (hexact : shard.input.Exact) (huptodate : shard.UpToDate zone fromMs toMs)
  (hdim : dim ∈ distinctDims)
  (hscan : analyseShard zone clock p fromMs toMs interval dim' shard = some scan)

include hexact huptodate hdim hscan

theorem capped_analyseShard : Capped distinctCap
    ((valuesOf dim (inWindow (fromMs, toMs) shard.input.rows)).erase "") (scan.distinct dim) := by
  obtain ⟨-, rfl⟩ | ⟨tables, firstFull, fullEnd, htables, hbounds, hlt, -, rfl⟩ :=
    analyseShard_eq_some hscan
  · exact capped_scanShard hexact hdim
  · have h := wholeDays_of_fullDayBounds hbounds
    have hbase : (sliceToScan zone interval dim'
        (readRange firstFull fullEnd tables)).distinct dim =
        (valuesOf dim (onWholeDays firstFull fullEnd shard.input.rows)).erase "" := by
      rw [huptodate tables firstFull fullEnd htables hbounds, ← readRange_distinct h hdim]
      rfl
    rw [rollShard, distinct_foldl_mergeScan, hbase, ← foldl_valuesOf h hlt]
    exact Capped.foldl (List.forall₂_same.mpr fun _ _ ↦ capped_scanShard hexact hdim) (.refl _ _)

/-- The count in the summary of the fast path is that of the scan where the values are those of the
whole days. -/
theorem summary_analyseShard (hsupports : p.supports = true) : scan.summary.distinct dim =
    (valuesOf dim (inWindow (fromMs, toMs) shard.input.rows)).card ↔
      shard.OnWholeDays zone fromMs toMs dim := by
  obtain ⟨hnone, rfl⟩ | ⟨tables, firstFull, fullEnd, htables, hbounds, hlt, hdays, rfl⟩ :=
    analyseShard_eq_some hscan
  · refine iff_of_true (scanned_distinct hsupports hexact hdim) fun firstFull fullEnd hdays ↦ ?_
    rw [hnone] at hdays
    cases hdays
  · have h := wholeDays_of_fullDayBounds hbounds
    have hbase : (sliceToScan zone interval dim'
        (readRange firstFull fullEnd tables)).summary.distinct dim =
        (valuesOf dim (onWholeDays firstFull fullEnd shard.input.rows)).card := by
      rw [huptodate tables firstFull fullEnd htables hbounds, ← readRange_distinct h hdim]
      simp only [distinctDims, List.mem_cons, List.not_mem_nil, or_false] at hdim
      rcases hdim with rfl | rfl <;> rfl
    have hsubset : valuesOf dim (onWholeDays firstFull fullEnd shard.input.rows) ⊆
        valuesOf dim (inWindow (fromMs, toMs) shard.input.rows) := by
      intro v hv
      obtain ⟨r, hr, hvalue⟩ := mem_valuesOf.mp hv
      obtain ⟨hmem, hinside⟩ := List.mem_filter.mp hr
      refine mem_valuesOf.mpr ⟨r, List.mem_filter.mpr ⟨hmem, ?_⟩, hvalue⟩
      have hfrom := h.from_le
      have hto := h.le_to
      obtain ⟨t, htime, ht⟩ := (Option.any_eq_true _ _).mp hinside
      refine (Option.any_eq_true _ _).mpr ⟨t, htime, ?_⟩
      simp only [Bool.and_eq_true, decide_eq_true_eq] at ht ⊢
      omega
    rw [rollShard, summary_foldl_mergeScan, hbase]
    constructor
    · intro hcard firstFull' fullEnd' hdays' r hr value hvalue
      obtain ⟨rfl, rfl⟩ := Prod.mk.inj (Option.some.inj (hdays.symm.trans hdays'))
      have hvalues := Finset.eq_of_subset_of_card_le hsubset hcard.ge
      exact mem_valuesOf.mp (hvalues ▸ mem_valuesOf.mpr ⟨r, hr, hvalue⟩)
    · intro hon
      refine congrArg Finset.card (Finset.Subset.antisymm hsubset fun v hv ↦ ?_)
      obtain ⟨r, hr, hvalue⟩ := mem_valuesOf.mp hv
      exact mem_valuesOf.mpr (hon firstFull fullEnd hdays r hr v hvalue)

end Shard

section Endpoint

variable {zone : Zone} {clock : Clock} {p : AnalysisParams} {dim : Dim} {fromMs toMs : ℤ}
  {shards : List RollupShard} {stores : Stores} {data : Data}

/-- The values of a column in the range, without the empty one, which several shards do not count. -/
def valuesInRange (fromMs toMs : ℤ) (dim : Dim) (shards : List RollupShard) : Finset String :=
  (valuesOf dim (windowRows fromMs toMs shards)).erase ""

def RollupShard.valuesInRange (fromMs toMs : ℤ) (dim : Dim) (shard : RollupShard) : Finset String :=
  (valuesOf dim (inWindow (fromMs, toMs) shard.input.rows)).erase ""

/-- Of several shards each has no more values than the limit of a query. -/
def DistinctFits (fromMs toMs : ℤ) (shards : List RollupShard) : Prop :=
  1 < shards.length → ∀ dim ∈ distinctDims, ∀ shard ∈ shards,
    (shard.valuesInRange fromMs toMs dim).card ≤ distinctCap

/-- The values of several shards together are below the limit. -/
def DistinctBelow (fromMs toMs : ℤ) (shards : List RollupShard) : Prop :=
  1 < shards.length → ∀ dim ∈ distinctDims, (valuesInRange fromMs toMs dim shards).card < distinctCap

/-- Where one shard is queried, the models and IPs of the range all occur on its whole days. -/
def ValuesOnWholeDays (zone : Zone) (fromMs toMs : ℤ) (shards : List RollupShard) : Prop :=
  ∀ shard, shards = [shard] → ∀ dim ∈ distinctDims, shard.OnWholeDays zone fromMs toMs dim

def DistinctAgree (a b : Analysis) : Prop :=
  a.summary.models = b.summary.models ∧ a.summary.ips = b.summary.ips

theorem distinctAgree_iff {a b : Analysis} : DistinctAgree a b ↔
    ∀ dim ∈ distinctDims, a.summary.distinct dim = b.summary.distinct dim := by
  rw [forall_distinctDims]
  rfl

theorem analyse_disabled : analyse zone clock p fromMs toMs false shards = none := by
  cases hdata : analyse zone clock p fromMs toMs false shards with
  | none => rfl
  | some data =>
    obtain ⟨dim, -, hdim, -⟩ := analyse_eq_some.mp hdata
    rw [AnalysisParams.rollupDim] at hdim
    split at hdim
    · cases hdim
    · cases hdim
    · rw [Bool.false_and, if_neg Bool.false_ne_true] at hdim
      cases hdim

theorem foldl_valuesInRange :
    shards.foldl (fun out shard ↦ out ∪ shard.valuesInRange fromMs toMs dim) ∅ =
      valuesInRange fromMs toMs dim shards := by
  have hvalues := @foldl_union_erase (·.raw dim)
    (shards.map fun shard ↦ inWindow (fromMs, toMs) shard.input.rows)
  rw [List.foldl_map] at hvalues
  rw [valuesInRange, valuesOf, windowRows, List.flatMap_def, ← hvalues]
  rfl

theorem capped_scans {dim' : Dim} {scans : List ShardScan} (hdim : dim ∈ distinctDims)
    (hexact : ∀ shard ∈ shards, shard.input.Exact)
    (huptodate : ∀ shard ∈ shards, shard.UpToDate zone fromMs toMs)
    (hscans : List.Forall₂ (fun shard scan ↦ analyseShard zone clock p fromMs toMs
      (p.step fromMs toMs) dim' shard = some scan) shards scans) :
    List.Forall₂ (fun shard scan ↦
      Capped distinctCap (shard.valuesInRange fromMs toMs dim) (scan.distinct dim)) shards scans := by
  refine List.forall₂_iff_get.mpr ⟨hscans.length_eq, fun i hi hi' ↦ ?_⟩
  have hshard := List.get_mem shards ⟨i, hi⟩
  exact capped_analyseShard (hexact _ hshard) (huptodate _ hshard) hdim
    ((List.forall₂_iff_get.mp hscans).2 i hi hi')

theorem toFinset_fetchOptimized (hsupports : p.supports = true)
    (hexact : ∀ shard ∈ shards, shard.input.Exact) :
    (fetchOptimized p fromMs toMs (shards.map (·.input)) (distinctSql (·.raw dim))).flatten.toFinset =
      shards.foldl (fun out shard ↦ out ∪
        (distinctSql (·.raw dim) (inWindow (fromMs, toMs) shard.input.rows)).toFinset) ∅ := by
  have hinputs : ∀ input ∈ shards.map (·.input), input.Exact := by
    intro input hinput
    obtain ⟨shard, hshard, rfl⟩ := List.mem_map.mp hinput
    exact hexact shard hshard
  have hflatten := toFinset_flatten_distinctSql (·.raw dim)
    (shards.map fun shard ↦ inWindow (fromMs, toMs) shard.input.rows)
  rw [List.foldl_map, List.map_map] at hflatten
  rw [← hflatten, fetchOptimized_eq hinputs, List.map_map]
  refine congrArg (fun values : List (List String) ↦ values.flatten.toFinset)
    (List.map_congr_left fun shard _ ↦ ?_)
  exact congrArg (distinctSql (·.raw dim)) (filter_inRange (fromMs, toMs) hsupports shard.input.rows)

theorem capped_queries (shards : List RollupShard) : List.Forall₂ (fun shard shard' ↦
    Capped distinctCap (shard.valuesInRange fromMs toMs dim)
      (distinctSql (·.raw dim) (inWindow (fromMs, toMs) (RollupShard.input shard').rows)).toFinset)
    shards shards :=
  List.forall₂_same.mpr fun _ _ ↦ capped_distinctSql _ _

variable {log : LogScan} {skipped : ℕ}

theorem flagged_iff {all kept : Dim → Finset String}
    (h : ∀ dim ∈ distinctDims, Capped distinctCap (all dim) (kept dim)) :
    (distinctCap ≤ (kept .model).card || distinctCap ≤ (kept .ip).card) = true ↔
      ¬ ∀ dim ∈ distinctDims, (all dim).card < distinctCap := by
  obtain ⟨hmodel, hip⟩ := forall_distinctDims.mp h
  rw [forall_distinctDims, ← hmodel.card_lt_iff, ← hip.card_lt_iff, Bool.or_eq_true,
    decide_eq_true_eq, decide_eq_true_eq]
  omega

section Paths

variable {dim' : Dim} {scans : List ShardScan} (hsupports : p.supports = true)
  (hexact : ∀ shard ∈ shards, shard.input.Exact)
  (huptodate : ∀ shard ∈ shards, shard.UpToDate zone fromMs toMs)
  (hscans : List.Forall₂ (fun shard scan ↦ analyseShard zone clock p fromMs toMs
    (p.step fromMs toMs) dim' shard = some scan) shards scans)

include hsupports hexact huptodate hscans

theorem distinctAgree_of_spread {rolled scanned : Analysis} (hspread : 1 < shards.length)
    (hrolled : rolled = assemble p fromMs toMs log skipped (pushScans scans).scans
      (some ((pushScans scans).distinctModels, (pushScans scans).distinctIps,
        (pushScans scans).distinctCapped)))
    (hscanned : scanned = assemble p fromMs toMs log skipped
      (scanShards clock p fromMs toMs (shards.map (·.input)))
      (distinctCounts p fromMs toMs (shards.map (·.input)))) :
    (DistinctFits fromMs toMs shards → DistinctAgree rolled scanned) ∧
      (¬ DistinctBelow fromMs toMs shards →
        rolled.distinctCapped = true ∧ scanned.distinctCapped = true) := by
  have hscan (dim : Dim) := @toFinset_fetchOptimized p dim fromMs toMs shards hsupports hexact
  rw [distinctCounts, List.length_map, if_pos hspread] at hscanned
  subst hrolled hscanned
  constructor
  · intro hfits
    have hcard (dim : Dim) (hdim : dim ∈ distinctDims) :
        (scans.foldl (fun out (scan : ShardScan) ↦ out ∪ scan.distinct dim) ∅).card =
          (fetchOptimized p fromMs toMs (shards.map (·.input))
            (distinctSql (·.raw dim))).flatten.toFinset.card := by
      have hwithin := hfits hspread dim hdim
      rw [hscan, Capped.foldl_eq (capped_scans hdim hexact huptodate hscans) hwithin,
        Capped.foldl_eq (capped_queries shards) hwithin]
    exact forall_distinctDims.mp hcard
  · intro hbelow
    have hreached : ¬ ∀ dim ∈ distinctDims,
        (valuesInRange fromMs toMs dim shards).card < distinctCap := fun h ↦ hbelow fun _ ↦ h
    have hrolled (dim : Dim) (hdim : dim ∈ distinctDims) :
        Capped distinctCap (valuesInRange fromMs toMs dim shards)
          (scans.foldl (fun out (scan : ShardScan) ↦ out ∪ scan.distinct dim) ∅) := by
      rw [← foldl_valuesInRange]
      exact Capped.foldl (capped_scans hdim hexact huptodate hscans) (.refl _ ∅)
    have hscanned (dim : Dim) (_ : dim ∈ distinctDims) :
        Capped distinctCap (valuesInRange fromMs toMs dim shards)
          (fetchOptimized p fromMs toMs (shards.map (·.input))
            (distinctSql (·.raw dim))).flatten.toFinset := by
      rw [hscan, ← foldl_valuesInRange]
      exact Capped.foldl (capped_queries shards) (.refl _ ∅)
    exact ⟨(flagged_iff hrolled).mpr hreached, (flagged_iff hscanned).mpr hreached⟩

theorem distinctAgree_of_single {rolled scanned : Analysis} {shard : RollupShard}
    (hone : shards = [shard])
    (hrolled : rolled = assemble p fromMs toMs log skipped (pushScans scans).scans none)
    (hscanned : scanned = assemble p fromMs toMs log skipped
      (scanShards clock p fromMs toMs (shards.map (·.input))) none) :
    DistinctAgree rolled scanned ↔ ∀ dim ∈ distinctDims, shard.OnWholeDays zone fromMs toMs dim := by
  subst hone
  obtain ⟨scan, rest, hscan, hrest, rfl⟩ := List.forall₂_cons_left_iff.mp hscans
  obtain rfl := List.forall₂_nil_left_iff.mp hrest
  have hshard := hexact shard List.mem_cons_self
  have hrolledCount (dim : Dim) (hdim : dim ∈ distinctDims) :
      rolled.summary.distinct dim = scan.summary.distinct dim := by
    rw [hrolled]
    refine (mergeSummaries_distinct _ hdim).trans ?_
    exact List.sum_singleton
  have hscannedCount (dim : Dim) (hdim : dim ∈ distinctDims) : scanned.summary.distinct dim =
      (valuesOf dim (inWindow (fromMs, toMs) shard.input.rows)).card := by
    rw [hscanned]
    exact @scanned_distinct p dim (fromMs, toMs) shard.input hsupports hshard hdim
  rw [distinctAgree_iff]
  refine forall₂_congr fun dim hdim ↦ ?_
  rw [hrolledCount dim hdim, hscannedCount dim hdim]
  exact summary_analyseShard hshard (huptodate shard List.mem_cons_self) hdim hscan hsupports

end Paths

/-- On the fast path and on the scan the analysis has the same counts of models and IPs exactly
where those of the range all occur on the whole days, if one shard is queried. If there are several,
the counts are the same unless a shard has more values than the limit of its query. Counts that have
reached the limit are flagged in both answers. -/
theorem distinctAgree_rolled_iff (hstores : shards.map (·.input) = collectShards fromMs toMs stores)
    (huptodate : ∀ shard ∈ shards, shard.UpToDate zone fromMs toMs)
    (hpath : (analyse zone clock p fromMs toMs true shards).isSome) :
    (DistinctFits fromMs toMs shards →
      (DistinctAgree (buildAnalysisRolled zone clock p fromMs toMs true log skipped shards)
          (buildAnalysisRolled zone clock p fromMs toMs false log skipped shards) ↔
        ValuesOnWholeDays zone fromMs toMs shards)) ∧
      (¬ DistinctBelow fromMs toMs shards →
        (buildAnalysisRolled zone clock p fromMs toMs true log skipped shards).distinctCapped =
            true ∧
          (buildAnalysisRolled zone clock p fromMs toMs false log skipped shards).distinctCapped =
            true) := by
  obtain ⟨data, hdata⟩ := Option.isSome_iff_exists.mp hpath
  obtain ⟨dim', scans, hdim', rfl, hscans⟩ := analyse_eq_some.mp hdata
  obtain ⟨hsupports, -⟩ := rollupDim_eq_some hdim'
  have hexact : ∀ shard ∈ shards, shard.input.Exact := by
    intro shard hshard
    exact collectShards_exact shard.input (hstores ▸ List.mem_map_of_mem hshard)
  rw [buildAnalysisRolled, buildAnalysisRolled, hdata, analyse_disabled]
  simp only [List.length_map]
  by_cases hspread : 1 < shards.length
  · rw [if_pos hspread]
    obtain ⟨hagree, hflagged⟩ :=
      @distinctAgree_of_spread zone clock p fromMs toMs shards log skipped dim' scans hsupports
        hexact huptodate hscans _ _ hspread rfl rfl
    refine ⟨fun hfits ↦ iff_of_true (hagree hfits) fun shard hone ↦ ?_, hflagged⟩
    rw [hone] at hspread
    exact absurd hspread (lt_irrefl 1)
  · have hlength := congrArg List.length hstores
    rw [List.length_map, collectShards, List.length_cons] at hlength
    obtain ⟨shard, hone⟩ := List.length_eq_one_iff.mp (by omega : shards.length = 1)
    have hnone : distinctCounts p fromMs toMs (shards.map (·.input)) = none := by
      rw [distinctCounts, List.length_map, if_neg hspread]
    rw [if_neg hspread, hnone]
    refine ⟨fun _ ↦ ?_, fun hfits ↦ absurd (fun h ↦ absurd h hspread) hfits⟩
    rw [distinctAgree_of_single hsupports hexact huptodate hscans hone rfl rfl]
    constructor
    · intro hon shard' hone'
      obtain rfl := List.singleton_inj.mp (hone.symm.trans hone')
      exact hon
    · intro hon
      exact hon shard hone

def named (ms : ℤ) (model : String) : Row where
  timeMs := some ms
  model := some model
  status := some 200

/-- The active store alone: a record at noon of the first day and one at noon of the second. -/
def twoNoons (first second : String) : List Row := [named 43200000 first, named 129600000 second]

def activeShard (rows : List Row) : List RollupShard :=
  [⟨⟨rows, none, none, true⟩, some (build utc.localDayMs (rows.map (·.toRecord)))⟩]

theorem activeShard_upToDate (rows : List Row) :
    ∀ shard ∈ activeShard rows, shard.UpToDate utc fromMs toMs := by
  intro shard hshard tables firstFull fullEnd htables _
  obtain rfl := List.mem_singleton.mp hshard
  obtain rfl := Option.some.inj htables
  rfl

/-- The answer for a range from the first noon to the end of the second day. -/
def fromNoon (enabled : Bool) (rows : List Row) : Analysis :=
  buildAnalysisRolled utc (strftime utc) daily 43200000 172799999 enabled ⟨0, []⟩ 0
    (activeShard rows)

theorem distinctAgree_rolled_iff_fromNoon :
    (DistinctFits 43200000 172799999 (activeShard (twoNoons "a" "a")) →
      (DistinctAgree (fromNoon true (twoNoons "a" "a")) (fromNoon false (twoNoons "a" "a")) ↔
        ValuesOnWholeDays utc 43200000 172799999 (activeShard (twoNoons "a" "a")))) ∧
      (¬ DistinctBelow 43200000 172799999 (activeShard (twoNoons "a" "a")) →
        (fromNoon true (twoNoons "a" "a")).distinctCapped = true ∧
          (fromNoon false (twoNoons "a" "a")).distinctCapped = true) :=
  have hstores : (activeShard (twoNoons "a" "a")).map (·.input) =
      collectShards 43200000 172799999 ⟨twoNoons "a" "a", []⟩ := rfl
  distinctAgree_rolled_iff hstores (activeShard_upToDate _) rfl

theorem model_of_partial_day_lost :
    (activeShard (twoNoons "a" "b")).map (·.input) =
        collectShards 43200000 172799999 ⟨twoNoons "a" "b", []⟩ ∧
      (∀ shard ∈ activeShard (twoNoons "a" "b"), shard.UpToDate utc 43200000 172799999) ∧
      (analyse utc (strftime utc) daily 43200000 172799999 true
        (activeShard (twoNoons "a" "b"))).isSome ∧
      (fromNoon true (twoNoons "a" "b")).summary.models = 1 ∧
      (fromNoon false (twoNoons "a" "b")).summary.models = 2 :=
  ⟨rfl, activeShard_upToDate _, rfl, by decide +kernel, by decide +kernel⟩

end Endpoint

end QueQiao.AnalysisApi
