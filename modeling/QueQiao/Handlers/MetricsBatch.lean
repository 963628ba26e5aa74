import QueQiao.Handlers.MetricsRollup

namespace QueQiao.MetricsApi

open Lib.Aggregation Aggregate AnalysisApi

variable {env : Environment}

section Restrict

variable {metrics required : List MetricName}

def restrictTo (metrics : List MetricName) (groups : GroupRows) : GroupRows where
  keys := groups.keys
  value name metric := if metric ∈ metrics then groups.value name metric else none
  value_eq_zero name h := by
    rw [groups.value_eq_zero name h]
    exact funext fun _ ↦ ite_self _

theorem mergeGroups_restrictTo (merged groups : GroupRows) :
    mergeGroups merged (restrictTo metrics groups) metrics = mergeGroups merged groups metrics := by
  refine GroupMap.ext rfl (funext fun name ↦ funext fun metric ↦ ?_)
  simp only [mergeGroups, restrictTo]
  split <;> rfl

theorem restrictTo_mergeGroups (hsub : required ⊆ metrics) (merged groups : GroupRows) :
    restrictTo required (mergeGroups merged groups metrics) =
      mergeGroups (restrictTo required merged) (restrictTo required groups) required := by
  refine GroupMap.ext rfl (funext fun name ↦ funext fun metric ↦ ?_)
  simp only [mergeGroups, restrictTo]
  split
  · rename_i hmetric
    exact if_pos (hsub hmetric)
  · rfl

theorem restrictTo_fetchGroups (hsub : required ⊆ metrics) (group : GroupBy) (rows : List Row) :
    restrictTo required (fetchGroups env group metrics rows) = fetchGroups env group required rows := by
  refine GroupMap.ext rfl (funext fun name ↦ funext fun metric ↦ ?_)
  simp only [restrictTo, fetchGroups, groupsFromRows]
  cases List.find? _ _ with
  | none => exact ite_self _
  | some row =>
    simp only [Option.map_some, Option.getD_some, entryOf]
    by_cases hmetric : metric ∈ required
    · rw [if_pos hmetric]
      exact if_congr (and_congr_left fun _ ↦ iff_of_true (hsub hmetric) hmetric) rfl rfl
    · rw [if_neg hmetric, if_neg fun h ↦ hmetric h.1]

theorem restrictTo_groupsFromAcc (hsub : required ⊆ metrics) (values : GroupMap String Acc) :
    restrictTo required (groupsFromAcc metrics values) = groupsFromAcc required values := by
  refine GroupMap.ext rfl (funext fun name ↦ funext fun metric ↦ ?_)
  simp only [restrictTo, groupsFromAcc]
  by_cases hname : name ∈ values.keys
  · rw [if_pos hname, if_pos hname, accEntry, accEntry]
    by_cases hmetric : metric ∈ required
    · rw [if_pos hmetric, if_pos hmetric, if_pos (hsub hmetric)]
    · rw [if_neg hmetric, if_neg hmetric]
  · rw [if_neg hname, if_neg hname]
    exact ite_self _

theorem restrictTo_rollupGroups (hsub : required ⊆ metrics) (shard : MetricShard) (dim : Dim)
    (group : GroupBy) (filters : MetricFilters) (fromMs toMs : ℤ) :
    (rollupGroups env shard dim group filters fromMs toMs metrics).map (restrictTo required) =
      rollupGroups env shard dim group filters fromMs toMs required := by
  have hfold (windows : List (ℤ × ℤ)) (groups : GroupRows) :
      restrictTo required (windows.foldl (fun groups window ↦ mergeGroups groups
        (fetchGroups env group metrics
          ((buildFiltersFor filters window.1 window.2 false).select shard.input)) metrics) groups) =
      windows.foldl (fun groups window ↦ mergeGroups groups (fetchGroups env group required
        ((buildFiltersFor filters window.1 window.2 false).select shard.input)) required)
        (restrictTo required groups) := by
    induction windows generalizing groups with
    | nil => rfl
    | cons window windows ih =>
      rw [List.foldl_cons, List.foldl_cons, ih, restrictTo_mergeGroups hsub,
        restrictTo_fetchGroups hsub]
  rw [rollupGroups, rollupGroups]
  cases fullDayBounds env.zone fromMs toMs with
  | none => rfl
  | some bounds =>
    simp only
    split
    · rfl
    · rw [Option.map_map]
      refine congrArg (Option.map · _) (funext fun tables ↦ ?_)
      rw [Function.comp_apply, hfold, restrictTo_groupsFromAcc hsub]

theorem restrictTo_jobGroups (job : Job) (hsub : required ⊆ job.metrics) :
    restrictTo required (jobGroups env job) = jobGroups env { job with metrics := required } := by
  have hscan : restrictTo required (scanGroups env job) =
      scanGroups env { job with metrics := required } := restrictTo_fetchGroups hsub _ _
  rw [jobGroups, jobGroups]
  cases job.rollupDim with
  | none => exact hscan
  | some dim =>
    simp only
    rw [← restrictTo_rollupGroups hsub]
    cases rollupGroups env job.shard dim job.group job.filters job.fromMs job.toMs job.metrics with
    | none => exact hscan
    | some groups => rfl

end Restrict

section Planning

abbrev Visit := MetricQuery × MetricShard

def keyOf (env : Environment) (visit : Visit) : JobKey := jobKey env visit.1 visit.2

def visits (env : Environment) (shards : List MetricShard) (queries : List MetricQuery) : List Visit :=
  queries.flatMap fun query ↦ (queryShards env shards query).map fun shard ↦ (query, shard)

theorem planJobs_eq (shards : List MetricShard) (queries : List MetricQuery) :
    planJobs env shards queries = (visits env shards queries).foldl
      (fun jobs visit ↦ addJob env jobs visit.1 visit.2) [] := by
  rw [planJobs, visits, List.foldl_flatMap]
  simp only [List.foldl_map]

theorem Jobs.get_eq_none {jobs : Jobs} {key : JobKey} :
    jobs.get key = none ↔ key ∉ jobs.map Prod.fst := by
  rw [Jobs.get, Option.map_eq_none_iff, List.find?_eq_none, List.mem_map]
  simp only [decide_eq_true_eq, not_exists, not_and]

theorem get_addJob (jobs : Jobs) (visit : Visit) (key : JobKey) :
    (addJob env jobs visit.1 visit.2).get key =
      if keyOf env visit = key then
        some (((jobs.get key).getD (newJob env visit.1 visit.2)).require (requiredMetrics visit.1))
      else jobs.get key := by
  obtain ⟨query, shard⟩ := visit
  rw [addJob, keyOf]
  split
  · rename_i hmem
    have hfind (entry : JobKey × Job) : (if entry.1 = jobKey env query shard then
        (entry.1, entry.2.require (requiredMetrics query)) else entry).1 = entry.1 := by
      split <;> rfl
    rw [Jobs.get, List.find?_map, Jobs.get]
    simp only [Function.comp_def, hfind]
    cases hentry : jobs.find? (·.1 = key) with
    | none =>
      rw [if_neg]
      · rfl
      · rintro rfl
        exact Jobs.get_eq_none.mp (by rw [Jobs.get, hentry]; rfl) hmem
    | some entry =>
      have hkey : entry.1 = key := by simpa using List.find?_some hentry
      simp only [Option.map_some, Option.getD_some, hkey]
      by_cases hsame : key = jobKey env query shard
      · rw [if_pos hsame, if_pos hsame.symm]
      · rw [if_neg hsame, if_neg (Ne.symm hsame)]
  · rename_i hmem
    rw [Jobs.get, List.find?_append, Jobs.get]
    by_cases hsame : jobKey env query shard = key
    · have hnone := Jobs.get_eq_none.mpr (hsame ▸ hmem)
      rw [Jobs.get, Option.map_eq_none_iff] at hnone
      rw [hnone, Option.none_or, if_pos hsame, List.find?_cons_of_pos (by simp [hsame])]
      rfl
    · rw [if_neg hsame, List.find?_cons_of_neg (by simp [hsame]), List.find?_nil, Option.or_none]

/-- There is a job exactly for the keys that were met; it is that of the first query of its key,
with the metrics of all of them. -/
structure Planned (env : Environment) (visits : List Visit) (jobs : Jobs) (key : JobKey) : Prop where
  absent : visits.find? (keyOf env · = key) = none → jobs.get key = none
  present : ∀ first, visits.find? (keyOf env · = key) = some first →
    ∃ metrics, jobs.get key = some { newJob env first.1 first.2 with metrics := metrics } ∧
      ∀ visit ∈ visits, keyOf env visit = key → requiredMetrics visit.1 ⊆ metrics

theorem mem_require {job : Job} {metrics : List MetricName} {metric : MetricName} :
    metric ∈ (job.require metrics).metrics ↔ metric ∈ job.metrics ∨ metric ∈ metrics := by
  simp only [Job.require, List.mem_append, List.mem_filter, decide_eq_true_eq]
  by_cases hmem : metric ∈ job.metrics <;> simp [hmem]

theorem planned_visits (visits : List Visit) (key : JobKey) :
    Planned env visits (visits.foldl (fun jobs visit ↦ addJob env jobs visit.1 visit.2) []) key := by
  induction visits using List.reverseRecOn with
  | nil => exact ⟨fun _ ↦ rfl, fun _ h ↦ by cases h⟩
  | append_singleton visits visit ih =>
    rw [List.foldl_append, List.foldl_cons, List.foldl_nil]
    generalize visits.foldl (fun jobs visit ↦ addJob env jobs visit.1 visit.2) [] = jobs at ih ⊢
    obtain ⟨habsent, hpresent⟩ := ih
    have hget := @get_addJob env jobs visit key
    by_cases hkey : keyOf env visit = key
    · rw [if_pos hkey] at hget
      cases hfind : visits.find? (keyOf env · = key) with
      | none =>
        rw [habsent hfind] at hget
        refine ⟨fun h ↦ ?_, fun first h ↦ ?_⟩
        · rw [List.find?_append, hfind, Option.none_or,
            List.find?_cons_of_pos (by simp [hkey])] at h
          cases h
        · rw [List.find?_append, hfind, Option.none_or,
            List.find?_cons_of_pos (by simp [hkey])] at h
          obtain rfl := Option.some.inj h
          refine ⟨_, hget, fun visit' hvisit hkey' metric hmetric ↦ ?_⟩
          rcases List.mem_append.mp hvisit with hvisit | hvisit
          · exact absurd (decide_eq_true hkey') (List.find?_eq_none.mp hfind _ hvisit)
          · rw [List.mem_singleton.mp hvisit] at hmetric
            exact mem_require.mpr (.inr hmetric)
      | some first =>
        obtain ⟨metrics, hjob, hmetrics⟩ := hpresent first hfind
        rw [hjob] at hget
        refine ⟨fun h ↦ ?_, fun first' h ↦ ?_⟩
        · rw [List.find?_append, hfind] at h
          cases h
        · rw [List.find?_append, hfind] at h
          obtain rfl := Option.some.inj h
          refine ⟨_, hget, fun visit' hvisit hkey' metric hmetric ↦ ?_⟩
          rcases List.mem_append.mp hvisit with hvisit | hvisit
          · exact mem_require.mpr (.inl (hmetrics visit' hvisit hkey' hmetric))
          · rw [List.mem_singleton.mp hvisit] at hmetric
            exact mem_require.mpr (.inr hmetric)
    · rw [if_neg hkey] at hget
      have hfind : (visits ++ [visit]).find? (keyOf env · = key) =
          visits.find? (keyOf env · = key) := by
        rw [List.find?_append, List.find?_cons_of_neg (by simp [hkey]), List.find?_nil,
          Option.or_none]
      refine ⟨fun h ↦ hget.trans (habsent (hfind ▸ h)), fun first h ↦ ?_⟩
      obtain ⟨metrics, hjob, hmetrics⟩ := hpresent first (hfind ▸ h)
      refine ⟨metrics, hget.trans hjob, fun visit' hvisit hkey' ↦ ?_⟩
      rcases List.mem_append.mp hvisit with hvisit | hvisit
      · exact hmetrics visit' hvisit hkey'
      · rw [List.mem_singleton.mp hvisit] at hkey'
        exact absurd hkey' hkey

end Planning

section Shards

variable {contents : Contents} {shard : MetricShard}

def allShards (env : Environment) (contents : Contents) : List MetricShard :=
  activeShard env contents :: contents.archives.map (archiveShard env)

theorem allShards_cases (h : shard ∈ allShards env contents) :
    shard = activeShard env contents ∨
      ∃ archive ∈ contents.archives, shard = archiveShard env archive := by
  rcases List.mem_cons.mp h with rfl | hmem
  · exact .inl rfl
  · obtain ⟨archive, harchive, rfl⟩ := List.mem_map.mp hmem
    exact .inr ⟨archive, harchive, rfl⟩

theorem allShards_nodup (env : Environment) (contents : Contents) :
    ((allShards env contents).map MetricShard.id).Nodup := by
  have hids : (allShards env contents).map MetricShard.id =
      "active" :: contents.archives.map ArchiveContents.id := by
    rw [allShards, List.map_cons, List.map_map]
    rfl
  rw [hids]
  exact contents.nodup

theorem queryShards_collectShards {query : MetricQuery} {fromMs toMs : ℤ}
    (hfrom : fromMs ≤ (resolveQueryRange env query).1) (hto : (resolveQueryRange env query).2 ≤ toMs) :
    queryShards env (collectShards env contents fromMs toMs) query =
      queryShards env (allShards env contents) query := by
  rw [queryShards, queryShards, collectShards, allShards, List.filter_cons_of_pos rfl,
    List.filter_cons_of_pos rfl, List.filter_filter]
  refine congrArg _ (List.filter_congr fun shard hshard ↦ ?_)
  obtain ⟨archive, -, rfl⟩ := List.mem_map.mp hshard
  rw [Bool.and_eq_left_iff_imp]
  intro hwithin
  obtain ⟨hmin, hmax⟩ := (Bool.and_eq_true _ _).mp hwithin
  obtain ⟨lo, hlo, hle⟩ := (Option.any_eq_true _ _).mp hmin
  obtain ⟨hi, hhi, hge⟩ := (Option.any_eq_true _ _).mp hmax
  rw [decide_eq_true_eq] at hle hge
  rw [Bool.and_eq_true, Option.any_eq_true, Option.any_eq_true]
  exact ⟨⟨lo, hlo, decide_eq_true (hle.trans hto)⟩, ⟨hi, hhi, decide_eq_true (hfrom.trans hge)⟩⟩

theorem queryShards_candidates {queries : List MetricQuery} {query : MetricQuery}
    (h : query ∈ queries) : queryShards env (candidates env contents queries) query =
      queryShards env (allShards env contents) query := by
  have hrange := List.mem_map_of_mem (f := resolveQueryRange env) h
  have hfrom := List.mem_map_of_mem (f := Prod.fst) hrange
  have hto := List.mem_map_of_mem (f := Prod.snd) hrange
  obtain ⟨lo, hlo⟩ := Option.isSome_iff_exists.mp (List.isSome_min?_of_mem hfrom)
  obtain ⟨hi, hhi⟩ := Option.isSome_iff_exists.mp (List.isSome_max?_of_mem hto)
  rw [candidates]
  simp only [hlo, hhi, Option.getD_some]
  exact queryShards_collectShards ((List.min?_eq_some_iff.mp hlo).2 _ hfrom)
    ((List.max?_eq_some_iff.mp hhi).2 _ hto)

theorem mem_allShards_of_queryShards {query : MetricQuery}
    (h : shard ∈ queryShards env (allShards env contents) query) : shard ∈ allShards env contents := by
  rw [queryShards] at h
  exact List.mem_of_mem_filter h

theorem visits_eq {shards : List MetricShard} {queries : List MetricQuery}
    (h : ∀ query ∈ queries, queryShards env shards query =
      queryShards env (allShards env contents) query) :
    visits env shards queries = visits env (allShards env contents) queries := by
  rw [visits, visits]
  exact List.flatMap_congr fun query hquery ↦ by rw [h query hquery]

theorem shard_eq_of_keyOf {visit visit' : Visit} (h : visit.2 ∈ allShards env contents)
    (h' : visit'.2 ∈ allShards env contents) (hkey : keyOf env visit = keyOf env visit') :
    visit.2 = visit'.2 :=
  List.inj_on_of_nodup_map (allShards_nodup env contents) h h' (congrArg JobKey.shard hkey)

theorem mem_visits {queries : List MetricQuery} {visit : Visit} :
    visit ∈ visits env (allShards env contents) queries ↔
      visit.1 ∈ queries ∧ visit.2 ∈ queryShards env (allShards env contents) visit.1 := by
  rw [visits, List.mem_flatMap]
  constructor
  · rintro ⟨query, hquery, hvisit⟩
    obtain ⟨shard, hshard, rfl⟩ := List.mem_map.mp hvisit
    exact ⟨hquery, hshard⟩
  · rintro ⟨hquery, hshard⟩
    exact ⟨visit.1, hquery, List.mem_map.mpr ⟨visit.2, hshard, rfl⟩⟩

theorem find?_visits_active (queries : List MetricQuery) {key : JobKey} (hkey : key.shard = "active") :
    (visits env (allShards env contents) queries).find? (keyOf env · = key) =
      (queries.find? fun query ↦ jobKey env query (activeShard env contents) = key).map
        fun query ↦ (query, activeShard env contents) := by
  induction queries with
  | nil => rfl
  | cons query queries ih =>
    have harchives : (((contents.archives.map (archiveShard env)).filter fun shard ↦
        shard.within (resolveQueryRange env query).1 (resolveQueryRange env query).2).map
        fun shard ↦ (query, shard)).find? (keyOf env · = key) = none := by
      refine List.find?_eq_none.mpr fun visit hvisit ↦ ?_
      obtain ⟨shard, hshard, rfl⟩ := List.mem_map.mp hvisit
      obtain ⟨archive, harchive, rfl⟩ := List.mem_map.mp (List.mem_of_mem_filter hshard)
      rw [decide_eq_true_eq]
      rintro rfl
      exact (List.nodup_cons.mp contents.nodup).1 (hkey ▸ List.mem_map_of_mem harchive)
    have hown : (visits env (allShards env contents) (query :: queries)) =
        (query, activeShard env contents) :: ((contents.archives.map (archiveShard env)).filter
          fun shard ↦ shard.within (resolveQueryRange env query).1 (resolveQueryRange env query).2).map
          (fun shard ↦ (query, shard)) ++ visits env (allShards env contents) queries := rfl
    by_cases hsame : jobKey env query (activeShard env contents) = key
    · have hvisit : keyOf env (query, activeShard env contents) = key := hsame
      rw [hown, List.cons_append, List.find?_cons_of_pos (by simpa using hvisit),
        List.find?_cons_of_pos (by simpa using hsame), Option.map_some]
    · have hvisit : keyOf env (query, activeShard env contents) ≠ key := hsame
      rw [hown, List.cons_append, List.find?_cons_of_neg (by simpa using hvisit),
        List.find?_append, harchives, Option.none_or, ih, List.find?_cons_of_neg (by simpa using hsame)]

end Shards

section Sharing

variable {contents : Contents} {shard : MetricShard} {first query : MetricQuery}
  {metrics : List MetricName}

/-- The range of a query that has whole days, for which a rollup is read. -/
def rolledRange (env : Environment) (query : MetricQuery) : Option (ℤ × ℤ) :=
  let range := resolveQueryRange env query
  ((fullDayBounds env.zone range.1 range.2).filter fun days ↦ days.1 < days.2).map fun _ ↦ range

theorem rollupGroups_of_rolledRange (h : rolledRange env query = none) (dim : Dim) (group : GroupBy)
    (filters : MetricFilters) :
    rollupGroups env shard dim group filters (resolveQueryRange env query).1
      (resolveQueryRange env query).2 metrics = none := by
  refine rollupGroups_none (fun firstFull fullEnd hbounds ↦ ?_) group filters metrics
  rw [rolledRange, Option.map_eq_none_iff, hbounds, Option.filter_eq_none_iff] at h
  simpa using h _ rfl

theorem rolledRange_eq_some {range : ℤ × ℤ} (h : rolledRange env query = some range) :
    resolveQueryRange env query = range ∧ ∃ firstFull fullEnd,
      fullDayBounds env.zone range.1 range.2 = some (firstFull, fullEnd) ∧ firstFull < fullEnd := by
  rw [rolledRange, Option.map_eq_some_iff] at h
  obtain ⟨days, hdays, rfl⟩ := h
  rw [Option.filter_eq_some_iff] at hdays
  exact ⟨rfl, days.1, days.2, hdays.1, of_decide_eq_true hdays.2⟩

def ownJob (env : Environment) (metrics : List MetricName) (query : MetricQuery)
    (shard : MetricShard) : Job :=
  { newJob env query shard with metrics := metrics }

theorem jobKey_eq (h : jobKey env first shard = jobKey env query shard) :
    first.groupBy = query.groupBy ∧ first.filters.normal = query.filters.normal ∧
      (newJob env first shard).full = (newJob env query shard).full ∧
      ((newJob env query shard).full = false →
        resolveQueryRange env first = resolveQueryRange env query) := by
  have hgroup := congrArg JobKey.group h
  have hfilters := congrArg (fun key ↦ key.conditions.filters) h
  have hwindow := congrArg (fun key ↦ key.conditions.window) h
  simp only [jobKey, buildFiltersFor] at hgroup hfilters hwindow
  refine ⟨hgroup, hfilters, ?_⟩
  simp only [newJob]
  cases hfirst : shardIsComplete env shard (resolveQueryRange env first).1
      (resolveQueryRange env first).2 <;>
    cases hquery : shardIsComplete env shard (resolveQueryRange env query).1
      (resolveQueryRange env query).2 <;>
    simp only [hfirst, hquery, Bool.false_eq_true, if_false, if_true, reduceCtorEq] at hwindow
  · exact ⟨rfl, fun _ ↦ Option.some.inj hwindow⟩
  · exact ⟨rfl, fun h ↦ by cases h⟩

theorem rollupDimFor_congr (hgroup : first.groupBy = query.groupBy)
    (hfilters : first.filters.normal = query.filters.normal) :
    rollupDimFor env first = rollupDimFor env query := by
  rw [rollupDimFor, rollupDimFor, hgroup, filtersAreEmpty, filtersAreEmpty, hfilters]

theorem buildFiltersFor_congr {filters filters' : MetricFilters}
    (h : filters.normal = filters'.normal) (fromMs toMs : ℤ) (full : Bool) :
    buildFiltersFor filters fromMs toMs full = buildFiltersFor filters' fromMs toMs full := by
  rw [buildFiltersFor, buildFiltersFor, h]

theorem scanGroups_shared (h : jobKey env first shard = jobKey env query shard) :
    scanGroups env (ownJob env metrics first shard) = scanGroups env (ownJob env metrics query shard) := by
  rw [scanGroups, scanGroups, ownJob, ownJob, newJob, newJob]
  simp only [h, (jobKey_eq h).1]

theorem jobGroups_eq (query : MetricQuery) (shard : MetricShard) :
    jobGroups env (ownJob env metrics query shard) =
      ((rollupDimFor env query).bind fun dim ↦ rollupGroups env shard dim query.groupBy query.filters
        (resolveQueryRange env query).1 (resolveQueryRange env query).2 metrics).getD
        (scanGroups env (ownJob env metrics query shard)) := by
  have hdim : (ownJob env metrics query shard).rollupDim = rollupDimFor env query := rfl
  rw [jobGroups, hdim]
  cases rollupDimFor env query <;> rfl

theorem jobGroups_of_range_eq (h : jobKey env first shard = jobKey env query shard)
    (hrange : resolveQueryRange env first = resolveQueryRange env query) :
    jobGroups env (ownJob env metrics first shard) = jobGroups env (ownJob env metrics query shard) := by
  obtain ⟨hgroup, hfilters, -, -⟩ := jobKey_eq h
  rw [jobGroups_eq, jobGroups_eq, scanGroups_shared h, rollupDimFor_congr hgroup hfilters]
  refine congrArg (Option.getD · _) (congrArg _ (funext fun dim ↦ ?_))
  rw [rollupGroups, rollupGroups]
  simp only [hrange, hgroup, buildFiltersFor_congr hfilters]

theorem jobGroups_of_rolledRange_none (h : rolledRange env query = none) (shard : MetricShard) :
    jobGroups env (ownJob env metrics query shard) =
      scanGroups env (ownJob env metrics query shard) := by
  rw [jobGroups_eq]
  cases rollupDimFor env query with
  | none => rfl
  | some dim =>
    rw [Option.bind_some, rollupGroups_of_rolledRange h]
    rfl

theorem scanGroups_archive {archive : ArchiveContents} {dim : Dim} {range : ℤ × ℤ}
    (hrange : resolveQueryRange env query = range) (hdim : rollupDimFor env query = some dim)
    (hdurations : Durations archive.rows)
    (hfull : (newJob env query (archiveShard env archive)).full = true) :
    scanGroups env (ownJob env metrics query (archiveShard env archive)) =
      entriesOf metrics (rangeGroups dim range.1 range.2 archive.rows) := by
  subst hrange
  obtain ⟨hempty, hgroup⟩ := rollupDimFor_eq_some hdim
  have hcovered : (archiveShard env archive).input.covered (resolveQueryRange env query).1
      (resolveQueryRange env query).2 = true := hfull
  have hselect : ((ownJob env metrics query (archiveShard env archive)).conditions).select
      (archiveShard env archive).input = inWindow (resolveQueryRange env query) archive.rows := by
    have hconditions : (ownJob env metrics query (archiveShard env archive)).conditions =
        ⟨none, {}⟩ := by
      change buildFiltersFor _ _ _ (newJob env query (archiveShard env archive)).full = _
      rw [hfull, buildFiltersFor, filtersAreEmpty_normal.mp hempty, if_pos rfl]
    rw [hconditions, Conditions.select, select_none (fun _ ↦ ⟨rfl, rfl⟩) hcovered]
    exact filter_inRange _ params_supports _
  rw [scanGroups, show (ownJob env metrics query (archiveShard env archive)).shard =
    archiveShard env archive from rfl, hselect]
  refine (fetchGroups_eq env query.groupBy fun r hr ↦
    hdurations r (List.mem_of_mem_filter hr)).trans ?_
  simp only [hgroup]
  rfl

theorem jobGroups_archive {archive : ArchiveContents} (harchive : archive ∈ contents.archives)
    (hfull : (newJob env query (archiveShard env archive)).full = true) :
    jobGroups env (ownJob env metrics query (archiveShard env archive)) =
      scanGroups env (ownJob env metrics query (archiveShard env archive)) := by
  cases hrolled : rolledRange env query with
  | none => exact jobGroups_of_rolledRange_none hrolled _
  | some range =>
    obtain ⟨hrange, firstFull, fullEnd, hbounds, hlt⟩ := rolledRange_eq_some hrolled
    have hdurations : Durations archive.rows := contents.durations archive harchive
    rw [jobGroups_eq]
    cases hdim : rollupDimFor env query with
    | none => rfl
    | some dim =>
      rw [Option.bind_some, hrange]
      by_cases hrolledUp : archive.rolledUp = true
      · have htables : (archiveShard env archive).tables (fullEnd - 1) =
            some (build env.zone.localDayMs (archive.rows.map (·.toRecord))) := if_pos hrolledUp
        rw [rollupGroups_eq (rollupDimFor_eq_some hdim) hbounds hlt hdurations htables,
          Option.getD_some, scanGroups_archive hrange hdim hdurations hfull]
        rfl
      · have htables : (archiveShard env archive).tables (fullEnd - 1) = none := if_neg hrolledUp
        rw [rollupGroups, hbounds]
        simp only [if_neg (not_le.mpr hlt), htables, Option.map_none, Option.getD_none]

end Sharing

section Batch

variable {cache : Cache} {contents : Contents} {queries : List MetricQuery} {query : MetricQuery}
  {shard : MetricShard}

def noContents : Contents where
  active := []
  activeTables _ := none
  archives := []
  nodup := List.nodup_singleton _
  durations _ h := absurd h List.not_mem_nil

def activeKey (env : Environment) (query : MetricQuery) : JobKey :=
  jobKey env query (activeShard env noContents)

def wholeActive (env : Environment) (query : MetricQuery) : Bool :=
  (newJob env query (activeShard env noContents)).full

/-- Of the queries that share a job on the whole active store, each that a rollup can answer has
the rolled range of the first. -/
def RangesAgree (env : Environment) (queries : List MetricQuery) : Prop :=
  ∀ query ∈ queries, wholeActive env query = true → (rollupDimFor env query).isSome = true →
    ∀ first, queries.find? (activeKey env · = activeKey env query) = some first →
      rolledRange env first = rolledRange env query

def Coherent (env : Environment) (cache : Cache) (contents : Contents) (queries : List MetricQuery) :
    Prop :=
  ∀ entry ∈ planJobs env (candidates env contents queries) queries, ∀ groups,
    (archiveCacheKey entry.2).bind cache = some groups → groups = jobGroups env entry.2

theorem jobResult_eq (hcache : Coherent env cache contents queries) {key : JobKey} {job : Job}
    (hjob : (planJobs env (candidates env contents queries) queries).get key = some job) :
    jobResult env cache job = jobGroups env job := by
  rw [Jobs.get, Option.map_eq_some_iff] at hjob
  obtain ⟨entry, hentry, rfl⟩ := hjob
  rw [jobResult]
  cases hcached : (archiveCacheKey entry.2).bind cache with
  | none => rfl
  | some groups => exact hcache entry (List.mem_of_find?_eq_some hentry) groups hcached

/-- For a shard of one of its queries, a batch merges what the first query with the same key
fetches from that shard. -/
theorem mergeJob_first (hcache : Coherent env cache contents queries) (hquery : query ∈ queries)
    (hshard : shard ∈ queryShards env (allShards env contents) query) :
    ∃ first : Visit, (visits env (allShards env contents) queries).find?
        (keyOf env · = jobKey env query shard) = some first ∧ first.2 = shard ∧
      ∀ merged, mergeJob env cache (planJobs env (candidates env contents queries) queries) query
        merged shard = mergeGroups merged
          (jobGroups env (ownJob env (requiredMetrics query) first.1 shard)) (requiredMetrics query) := by
  have hvisits : visits env (candidates env contents queries) queries =
      visits env (allShards env contents) queries :=
    visits_eq fun query hquery ↦ queryShards_candidates hquery
  have hmem : (query, shard) ∈ visits env (allShards env contents) queries :=
    mem_visits.mpr ⟨hquery, hshard⟩
  have hplanned : Planned env (visits env (candidates env contents queries) queries) _
      (jobKey env query shard) := planned_visits _ _
  rw [← planJobs_eq, hvisits] at hplanned
  cases hfind : (visits env (allShards env contents) queries).find?
      (keyOf env · = jobKey env query shard) with
  | none => exact absurd (decide_eq_true rfl) (List.find?_eq_none.mp hfind _ hmem)
  | some first =>
    obtain ⟨metrics, hjob, hmetrics⟩ := hplanned.present first hfind
    have hkey : keyOf env first = jobKey env query shard := by simpa using List.find?_some hfind
    have hfirst := (mem_visits.mp (List.mem_of_find?_eq_some hfind)).2
    have hsame : first.2 = shard := @shard_eq_of_keyOf _ _ first (query, shard)
      (mem_allShards_of_queryShards hfirst) (mem_allShards_of_queryShards hshard) hkey
    refine ⟨first, rfl, hsame, fun merged ↦ ?_⟩
    rw [mergeJob, hjob]
    simp only
    rw [jobResult_eq hcache hjob, ← mergeGroups_restrictTo,
      restrictTo_jobGroups _ (hmetrics _ hmem rfl), ← hsame]
    rfl

def aloneGroups (env : Environment) (contents : Contents) (query : MetricQuery) : GroupRows :=
  (queryShards env (allShards env contents) query).foldl
    (fun merged shard ↦ mergeGroups merged
      (jobGroups env (ownJob env (requiredMetrics query) query shard)) (requiredMetrics query))
    noGroups

theorem jobGroups_first (hagree : RangesAgree env queries) (hquery : query ∈ queries)
    (hshard : shard ∈ allShards env contents) {first : Visit}
    (hfind : (visits env (allShards env contents) queries).find?
      (keyOf env · = jobKey env query shard) = some first) (hsame : first.2 = shard)
    (metrics : List MetricName) :
    jobGroups env (ownJob env metrics first.1 shard) = jobGroups env (ownJob env metrics query shard) := by
  have hkey : jobKey env first.1 shard = jobKey env query shard := by
    rw [← hsame]
    simpa [keyOf, hsame] using List.find?_some hfind
  obtain ⟨hgroup, hfilters, hfulls, hrange⟩ := jobKey_eq hkey
  cases hfull : (newJob env query shard).full with
  | false => exact jobGroups_of_range_eq hkey (hrange hfull)
  | true =>
    rcases allShards_cases hshard with rfl | ⟨archive, harchive, rfl⟩
    · rw [find?_visits_active queries rfl, Option.map_eq_some_iff] at hfind
      obtain ⟨first, hfind, rfl⟩ := hfind
      cases hdim : rollupDimFor env query with
      | none =>
        rw [jobGroups_eq, jobGroups_eq, rollupDimFor_congr hgroup hfilters, hdim]
        exact scanGroups_shared hkey
      | some dim =>
        have hrolled := hagree query hquery hfull (by rw [hdim]; rfl) first hfind
        cases hquery : rolledRange env query with
        | none =>
          rw [jobGroups_of_rolledRange_none (hrolled.trans hquery),
            jobGroups_of_rolledRange_none hquery]
          exact scanGroups_shared hkey
        | some range =>
          refine jobGroups_of_range_eq hkey ?_
          rw [(rolledRange_eq_some (hrolled.trans hquery)).1, (rolledRange_eq_some hquery).1]
    · rw [jobGroups_archive harchive (hfulls.trans hfull), jobGroups_archive harchive hfull]
      exact scanGroups_shared hkey

theorem mergeJobs_eq (hagree : RangesAgree env queries)
    (hcache : Coherent env cache contents queries) (hquery : query ∈ queries) :
    mergeJobs env cache (planJobs env (candidates env contents queries) queries)
      (queryShards env (candidates env contents queries) query) query =
      aloneGroups env contents query := by
  rw [queryShards_candidates hquery, mergeJobs, aloneGroups]
  apply List.foldl_ext
  intro merged shard hshard
  obtain ⟨first, hfind, hsame, hmerge⟩ := mergeJob_first hcache hquery hshard
  rw [hmerge, jobGroups_first hagree hquery (mem_allShards_of_queryShards hshard) hfind hsame]

theorem answer_eq (hagree : RangesAgree env queries) (hcache : Coherent env cache contents queries)
    (hquery : query ∈ queries) :
    answer env cache (planJobs env (candidates env contents queries) queries)
      (candidates env contents queries) query =
      renderResult env.sumF64 env.parseArray query (resolveQueryRange env query).1
        (resolveQueryRange env query).2
        ((queryShards env (allShards env contents) query).map MetricShard.id)
        (aloneGroups env contents query) := by
  rw [answer, mergeJobs_eq hagree hcache hquery, queryShards_candidates hquery]

end Batch

end QueQiao.MetricsApi
