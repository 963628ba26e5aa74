import QueQiao.Handlers.RollupAgreement

namespace QueQiao.AnalysisApi

open Lib.Aggregation Lib.Traversal Aggregate

section Labels

variable {zone : Zone} {clock : Clock} {p : AnalysisParams} {fromMs toMs : ℤ} {enabled : Bool}
  {shards shards' : List RollupShard} {data : Data}

/-- The records of the range have the labels on the fast path that the query gives them. -/
def LabelsAgree (zone : Zone) (clock : Clock) (p : AnalysisParams) (fromMs toMs : ℤ)
    (shards : List RollupShard) : Prop :=
  ∀ shard ∈ shards, ∀ r ∈ inWindow (fromMs, toMs) shard.input.rows,
    rollupLabel zone clock (p.step fromMs toMs) (shard.wholeDays zone fromMs toMs) r =
      some ((bucketExpr clock (p.step fromMs toMs) r).getD "Unknown")

/-- Shards that differ in nothing but the other columns of their records and the tables made of
them. -/
structure SameTimes (shard shard' : RollupShard) : Prop where
  isActive : shard'.input.isActive = shard.input.isActive
  minMs : shard'.input.minMs = shard.input.minMs
  maxMs : shard'.input.maxMs = shard.input.maxMs
  times : shard'.input.rows.map (·.timeMs) = shard.input.rows.map (·.timeMs)
  tables : shard'.tables.isSome = shard.tables.isSome

theorem rollupLabel_congr {interval : Interval} {days : Option (ℤ × ℤ)} {r r' : Row}
    (h : r.timeMs = r'.timeMs) :
    rollupLabel zone clock interval days r = rollupLabel zone clock interval days r' := by
  rw [rollupLabel, rollupLabel, dayLabel, dayLabel, dayOf, dayOf, bucketExpr, bucketExpr, h]

theorem bucketExpr_congr {interval : Interval} {r r' : Row} (h : r.timeMs = r'.timeMs) :
    bucketExpr clock interval r = bucketExpr clock interval r' := by
  rw [bucketExpr, bucketExpr, h]

theorem SameTimes.exact {shard shard' : RollupShard} (h : SameTimes shard shard')
    (hexact : shard.input.Exact) : shard'.input.Exact := by
  have htimes (rows : List Row) :
      rows.filterMap (·.timeMs) = (rows.map (·.timeMs)).filterMap id := by
    rw [List.filterMap_map]
    rfl
  intro hactive
  rw [h.isActive] at hactive
  have hbounds := hexact hactive
  rw [htimes, h.times, h.minMs, h.maxMs, ← htimes]
  exact hbounds

theorem SameTimes.wholeDays {shard shard' : RollupShard} (h : SameTimes shard shard') :
    shard'.wholeDays zone fromMs toMs = shard.wholeDays zone fromMs toMs := by
  rw [RollupShard.wholeDays, RollupShard.wholeDays, h.tables]

theorem LabelsAgree.of_sameTimes (h : LabelsAgree zone clock p fromMs toMs shards)
    (hsame : List.Forall₂ SameTimes shards shards') :
    LabelsAgree zone clock p fromMs toMs shards' := by
  intro shard' hshard' r' hr'
  obtain ⟨shard, hshard, hsame⟩ := exists_of_mem_right hsame hshard'
  obtain ⟨hmem, hin⟩ := List.mem_filter.mp hr'
  have htime : r'.timeMs ∈ shard.input.rows.map (·.timeMs) := by
    rw [← hsame.times]
    exact List.mem_map_of_mem hmem
  obtain ⟨r, hr, heq⟩ := List.mem_map.mp htime
  have hagree := h shard hshard r (List.mem_filter.mpr ⟨hr, by rw [heq]; exact hin⟩)
  rw [hsame.wholeDays, ← rollupLabel_congr heq, ← bucketExpr_congr heq]
  exact hagree

theorem LabelsAgree.trend (h : LabelsAgree zone clock p fromMs toMs shards) :
    rollupTrend zone clock p fromMs toMs shards =
      trendOf clock p fromMs toMs (windowRows fromMs toMs shards) := by
  rw [rollupTrend, trendOf, windowRows, total_flatMap]
  refine total_congr fun shard hshard ↦ total_congr fun r hr ↦ ?_
  rw [h shard hshard r hr]
  rfl

theorem additive_eq_of_labelsAgree (hfrom : IsI64 fromMs) (hto : IsI64 toMs) (hle : fromMs ≤ toMs)
    (hexact : ∀ shard ∈ shards, shard.input.Exact)
    (huptodate : ∀ shard ∈ shards, shard.UpToDate zone fromMs toMs)
    (hnonneg : ∀ shard ∈ shards, NonNegative shard.input.rows)
    (hdata : analyse zone clock p fromMs toMs enabled shards = some data)
    (huncapped : data.scans.dimCapped = false)
    (hscan : (scanShards clock p fromMs toMs (shards.map (·.input))).dimCapped = false)
    (h : LabelsAgree zone clock p fromMs toMs shards) :
    data.scans.additive = (scanShards clock p fromMs toMs (shards.map (·.input))).additive := by
  obtain ⟨dim, -, hpath, -⟩ := analyse_eq_some.mp hdata
  have hinputs : ∀ input ∈ shards.map (·.input), input.Exact := by
    intro input hinput
    obtain ⟨shard, hshard, rfl⟩ := List.mem_map.mp hinput
    exact hexact shard hshard
  rw [additive_analyse hfrom hto hle hexact huptodate hnonneg hdata huncapped,
    additive_scanShards hinputs hfrom hto hle hscan, rowsInRange_eq (rollupDim_eq_some hpath).1, h.trend]
  rfl

end Labels

section Probe

variable {zone : Zone} {clock : Clock} {p : AnalysisParams} {fromMs toMs : ℤ} {enabled : Bool}
  {shards : List RollupShard} {data : Data} {time : Option ℤ}

/-- A record of the same time that is an error at the given time and nothing else. -/
def probe (time : Option ℤ) (r : Row) : Row where
  timeMs := r.timeMs
  status := if r.timeMs = time then some 500 else none

def RollupShard.probed (zone : Zone) (time : Option ℤ) (shard : RollupShard) : RollupShard where
  input := { shard.input with rows := shard.input.rows.map (probe time) }
  tables := shard.tables.map fun _ ↦
    build zone.localDayMs ((shard.input.rows.map (probe time)).map (·.toRecord))

theorem sameTimes_probed (shard : RollupShard) : SameTimes shard (shard.probed zone time) where
  isActive := rfl
  minMs := rfl
  maxMs := rfl
  times := List.map_map ..
  tables := Option.isSome_map

theorem upToDate_probed (shard : RollupShard) :
    (shard.probed zone time).UpToDate zone fromMs toMs := by
  intro tables firstFull fullEnd htables _
  obtain ⟨_, -, rfl⟩ := Option.map_eq_some_iff.mp htables
  rfl

theorem nonNegative_probed (shard : RollupShard) :
    NonNegative (shard.probed zone time).input.rows := by
  intro r hr
  obtain ⟨_, -, rfl⟩ := List.mem_map.mp hr
  exact ⟨fun v hv ↦ absurd hv (Option.some_ne_none v).symm,
    fun v hv ↦ absurd hv (Option.some_ne_none v).symm⟩

theorem analyseShard_isSome {interval : Interval} {dim : Dim} {shard shard' : RollupShard}
    (h : SameTimes shard shard') :
    (analyseShard zone clock p fromMs toMs interval dim shard').isSome =
      (analyseShard zone clock p fromMs toMs interval dim shard).isSome := by
  have htables := h.tables
  rw [analyseShard, analyseShard, h.isActive]
  cases fullDayBounds zone fromMs toMs with
  | none => cases shard.input.isActive <;> rfl
  | some days =>
    by_cases hempty : days.2 ≤ days.1
    · simp only [if_pos hempty, Option.isSome_some]
    · simp only [if_neg hempty]
      cases ht : shard.tables <;> cases ht' : shard'.tables <;> rw [ht, ht'] at htables
      · cases shard.input.isActive <;> rfl
      · cases htables
      · cases htables
      · rfl

theorem analyse_probed (time : Option ℤ) (h : analyse zone clock p fromMs toMs enabled shards = some data) :
    ∃ data', analyse zone clock p fromMs toMs enabled (shards.map (·.probed zone time)) =
      some data' := by
  obtain ⟨dim, scans, hpath, -, hscans⟩ := analyse_eq_some.mp h
  have hprobed : ∃ scans', List.Forall₂ (fun shard scan ↦ analyseShard zone clock p fromMs toMs
      (p.step fromMs toMs) dim shard = some scan) (shards.map (·.probed zone time)) scans' := by
    clear h
    induction hscans with
    | nil => exact ⟨[], .nil⟩
    | @cons shard scan _ _ hscan _ ih =>
      obtain ⟨scans', ih⟩ := ih
      have hsome : (analyseShard zone clock p fromMs toMs (p.step fromMs toMs) dim
          (shard.probed zone time)).isSome = (analyseShard zone clock p fromMs toMs
            (p.step fromMs toMs) dim shard).isSome := analyseShard_isSome (sameTimes_probed shard)
      rw [hscan] at hsome
      obtain ⟨scan', hscan'⟩ := Option.isSome_iff_exists.mp hsome
      exact ⟨scan' :: scans', .cons hscan' ih⟩
  obtain ⟨scans', hscans'⟩ := hprobed
  exact ⟨_, analyse_eq_some.mpr ⟨dim, scans', hpath, rfl, hscans'⟩⟩

def probeNames : Finset String := {"Unknown", "500"}

theorem dimExpr_probe (dim : Dim) (r : Row) :
    dimExpr clock (.column dim) (probe time r) ∈ probeNames := by
  have hunknown : "Unknown" ∈ probeNames := by decide
  cases dim with
  | status =>
    change ((if r.timeMs = time then some (500 : ℤ) else none).map toString).getD "Unknown" ∈ _
    split
    · decide
    · exact hunknown
  | _ => exact hunknown

section Names

variable {dim : Dim} {names : Finset String}

theorem dimsSql_names {rows : List Row} (cap : ℕ) (h : ∀ r ∈ rows, dimExpr clock (.column dim) r ∈ names) :
    ((dimsSql clock (.column dim) cap rows).map (·.1)).Nodup ∧
      ∀ row ∈ dimsSql clock (.column dim) cap rows, row.1 ∈ names := by
  constructor
  · refine List.Nodup.sublist ((List.take_sublist _ _).map _) ?_
    rw [groupBy, List.map_map]
    exact (List.map_id _).symm ▸ List.nodup_dedup _
  · intro row hrow
    obtain ⟨name, hname, rfl⟩ := List.mem_map.mp (List.mem_of_mem_take hrow)
    obtain ⟨r, hr, rfl⟩ := List.mem_map.mp (List.mem_dedup.mp hname)
    exact h r hr

theorem mem_fetchSliced {β : Type} {sql : List Row → β} {inputs : List ShardInput} {b : β}
    (h : b ∈ fetchSliced p fromMs toMs inputs sql) :
    ∃ input ∈ inputs, ∃ window, b = sql (input.select p window) := by
  rw [fetchSliced, List.mem_flatMap] at h
  obtain ⟨input, hinput, h⟩ := h
  obtain ⟨window, -, rfl⟩ := List.mem_map.mp h
  exact ⟨input, hinput, window, rfl⟩

theorem dimCapped_scanShards (hdim : p.dim = .column dim) {inputs : List ShardInput}
    (h : ∀ input ∈ inputs, ∀ r ∈ input.rows, dimExpr clock (.column dim) r ∈ names)
    (hcard : names.card ≤ groupCap) :
    (scanShards clock p fromMs toMs inputs).dimCapped = false := by
  rw [ScanData.dimCapped, List.any_eq_false]
  intro rows hrows
  obtain ⟨groups, hgroups, rfl⟩ := List.mem_map.mp hrows
  obtain ⟨input, hinput, window, rfl⟩ := mem_fetchSliced hgroups
  rw [hdim, decide_eq_true_eq, not_lt, List.length_map]
  have hselected : ∀ r ∈ input.select p window, dimExpr clock (.column dim) r ∈ names :=
    fun r hr ↦ h input hinput r (List.mem_of_mem_filter hr)
  obtain ⟨hnodup, hmem⟩ := dimsSql_names (groupCap + 1) hselected
  rw [← List.length_map (·.1), ← List.toFinset_card_of_nodup hnodup]
  refine (Finset.card_le_card fun name hname ↦ ?_).trans hcard
  obtain ⟨row, hrow, rfl⟩ := List.mem_map.mp (List.mem_toFinset.mp hname)
  exact hmem row hrow

theorem scanShard_names (hdim : p.dim = .column dim) {input : ShardInput} {window : ℤ × ℤ}
    {interval : Interval} (h : ∀ r ∈ input.rows, dimExpr clock (.column dim) r ∈ names) :
    (scanShard clock p interval input window).dims.keys ⊆ names := by
  intro name hname
  rw [scanShard, GroupMap.keys_ofRows, List.mem_toFinset, List.map_map] at hname
  obtain ⟨row, hrow, rfl⟩ := List.mem_map.mp hname
  obtain ⟨rows, hrows, hgroup⟩ := List.mem_flatten.mp hrow
  obtain ⟨input', hinput, w, rfl⟩ := mem_fetchSliced hrows
  obtain rfl := List.mem_singleton.mp hinput
  rw [hdim] at hgroup
  exact (dimsSql_names _ fun r hr ↦ h r (List.mem_of_mem_filter hr)).2 row hgroup

theorem analyseShard_names (hdim : p.dim = .column dim) {shard : RollupShard} {scan : ShardScan}
    {interval : Interval} (huptodate : shard.UpToDate zone fromMs toMs)
    (h : ∀ r ∈ shard.input.rows, dimExpr clock (.column dim) r ∈ names)
    (hscan : analyseShard zone clock p fromMs toMs interval dim shard = some scan) :
    scan.dims.keys ⊆ names := by
  have hscanned (hs : some (scanShard clock p interval shard.input (fromMs, toMs)) = some scan) :
      scan.dims.keys ⊆ names := Option.some.inj hs ▸ scanShard_names hdim h
  rw [analyseShard] at hscan
  split at hscan
  · rename_i firstFull fullEnd hbounds
    split at hscan
    · exact hscanned hscan
    · split at hscan
      · rename_i tables htables
        have hwhole := wholeDays_of_fullDayBounds hbounds
        obtain rfl := Option.some.inj hscan
        rw [rollShard, huptodate tables firstFull fullEnd htables hbounds,
          foldl_mergeScan (c := (·.dims)) (fun _ _ ↦ mergeGroups_eq _ _), GroupMap.keys_add,
          sliceToScan_dims hwhole]
        refine Finset.union_subset (GroupMap.keys_total_subset fun r hr ↦ ?_)
          (GroupMap.keys_total_subset fun window _ ↦ scanShard_names hdim h)
        rw [← dimExpr_column clock]
        exact Finset.singleton_subset_iff.mpr (h r (List.mem_of_mem_filter hr))
      · split at hscan
        · exact hscanned hscan
        · cases hscan
  · split at hscan
    · exact hscanned hscan
    · cases hscan

theorem dimCapped_analyse (hdata : analyse zone clock p fromMs toMs enabled shards = some data)
    (hdim : p.dim = .column dim) (huptodate : ∀ shard ∈ shards, shard.UpToDate zone fromMs toMs)
    (h : ∀ shard ∈ shards, ∀ r ∈ shard.input.rows, dimExpr clock (.column dim) r ∈ names)
    (hcard : names.card ≤ groupCap) : data.scans.dimCapped = false := by
  obtain ⟨dim', scans, hpath, rfl, hscans⟩ := analyse_eq_some.mp hdata
  have hdim' := (rollupDim_eq_some hpath).2
  obtain rfl : dim = dim' := Dimension.column.inj (hdim.symm.trans hdim')
  rw [ScanData.dimCapped, List.any_eq_false]
  intro rows hrows
  obtain ⟨scan, hscan, rfl⟩ := List.mem_map.mp hrows
  obtain ⟨shard, hshard, hscan⟩ := exists_of_mem_right hscans hscan
  rw [decide_eq_true_eq, not_lt, GroupMap.entries, List.length_map, Finset.length_sort]
  exact (Finset.card_le_card (analyseShard_names hdim (huptodate shard hshard) (h shard hshard)
    hscan)).trans hcard

end Names

def errorsAt (label : String) : GroupMap String Metrics →+ ℕ where
  toFun g := (g.value label).errors
  map_zero' := rfl
  map_add' _ _ := rfl

theorem errorsAt_optional (label : String) (k : Option String) (m : Metrics) :
    errorsAt label (.optional k m) = if k = some label then m.errors else 0 := by
  cases k with
  | none => rfl
  | some k =>
    change (if label = k then m else 0).errors = _
    by_cases hk : label = k
    · rw [if_pos hk, if_pos (congrArg some hk.symm)]
    · rw [if_neg hk, if_neg fun h ↦ hk (Option.some.inj h).symm]
      rfl

theorem errors_probe (r : Row) :
    (trendMetrics (probe time r)).errors = if r.timeMs = time then 1 else 0 := by
  change (if (if r.timeMs = time then some (500 : ℤ) else none).any (400 ≤ ·) then 1 else 0) = _
  split <;> rfl

end Probe

section Exact

variable {zone : Zone} {clock : Clock} {p : AnalysisParams} {fromMs toMs : ℤ} {enabled : Bool}
  {shards : List RollupShard} {stores : Stores}

/-- The fast path agrees with the scan on the records in the range, whatever they hold besides
their times. -/
def RollupAgrees (zone : Zone) (clock : Clock) (p : AnalysisParams) (fromMs toMs : ℤ)
    (enabled : Bool) (shards : List RollupShard) : Prop :=
  ∀ shards' data, List.Forall₂ SameTimes shards shards' →
    (∀ shard ∈ shards', shard.UpToDate zone fromMs toMs) →
    (∀ shard ∈ shards', NonNegative shard.input.rows) →
    analyse zone clock p fromMs toMs enabled shards' = some data →
    data.scans.dimCapped = false →
    (scanShards clock p fromMs toMs (shards'.map (·.input))).dimCapped = false →
      data.scans.additive = (scanShards clock p fromMs toMs (shards'.map (·.input))).additive

theorem labelsAgree_of_trend {time : Option ℤ}
    (htrend : rollupTrend zone clock p fromMs toMs (shards.map (·.probed zone time)) =
      trendOf clock p fromMs toMs (windowRows fromMs toMs (shards.map (·.probed zone time))))
    {label : String}
    (hlabel : ∀ r : Row, r.timeMs = time →
      (bucketExpr clock (p.step fromMs toMs) r).getD "Unknown" = label) :
    ∀ shard ∈ shards, ∀ r ∈ inWindow (fromMs, toMs) shard.input.rows, r.timeMs = time →
      rollupLabel zone clock (p.step fromMs toMs) (shard.wholeDays zone fromMs toMs) r =
        some label := by
  have hwindow (rows : List Row) : inWindow (fromMs, toMs) (rows.map (probe time)) =
      (inWindow (fromMs, toMs) rows).map (probe time) := List.filter_map
  have htimes (r : Row) : (probe time r).timeMs = r.timeMs := rfl
  have hrollup (shard : RollupShard) (r : Row) : errorsAt label (.optional
      (rollupLabel zone clock (p.step fromMs toMs) (shard.wholeDays zone fromMs toMs)
        (probe time r)) (trendMetrics (probe time r))) =
      if rollupLabel zone clock (p.step fromMs toMs) (shard.wholeDays zone fromMs toMs) r =
        some label ∧ r.timeMs = time then 1 else 0 := by
    rw [errorsAt_optional, errors_probe, rollupLabel_congr (htimes r),
      ite_and]
  have hscan (r : Row) : errorsAt label (GroupMap.single
      ((bucketExpr clock (p.step fromMs toMs) (probe time r)).getD "Unknown")
        (trendMetrics (probe time r))) = if r.timeMs = time then 1 else 0 := by
    refine (errorsAt_optional label (some _) _).trans ?_
    rw [errors_probe, bucketExpr_congr (htimes r)]
    by_cases htime : r.timeMs = time
    · rw [if_pos (congrArg some (hlabel r htime))]
    · rw [if_neg htime, ite_self]
  have hsum := congrArg (errorsAt label) htrend
  rw [rollupTrend, trendOf, windowRows, total_hom, total_hom, total_flatMap, total_map,
    total_map] at hsum
  simp only [total_hom, (sameTimes_probed _).wholeDays] at hsum
  change total (fun shard ↦ total _ (inWindow _ (List.map _ _))) _ =
    total (fun shard ↦ total _ (inWindow _ (List.map _ _))) _ at hsum
  simp only [hwindow, total_map, hrollup, hscan] at hsum
  have hle (shard : RollupShard) (r : Row) :
      (if rollupLabel zone clock (p.step fromMs toMs) (shard.wholeDays zone fromMs toMs) r =
        some label ∧ r.timeMs = time then 1 else 0) ≤ if r.timeMs = time then 1 else 0 := by
    split
    · rename_i hboth
      rw [if_pos hboth.2]
    · exact Nat.zero_le _
  intro shard hshard r hr htime
  have hshardSum := eq_of_total_eq (fun shard _ ↦ total_le_total fun r _ ↦ hle shard r) hsum shard
    hshard
  have hrecord := eq_of_total_eq (fun r _ ↦ hle shard r) hshardSum r hr
  rw [if_pos htime] at hrecord
  by_contra hother
  rw [if_neg fun hboth ↦ hother hboth.1] at hrecord
  omega

end Exact

end QueQiao.AnalysisApi
