import QueQiao.Handlers.AnalysisShards
import QueQiao.Lib.OrderStatistics

namespace QueQiao.AnalysisApi

open Lib Lib.Aggregation Lib.OrderStatistics

def latencyHistogram (values : Multiset ℚ) : GroupMap ℤ ℕ := histogram histBucket values

def bucketTotal (buckets : List (ℤ × ℕ)) : ℕ := (buckets.map (·.2)).sum

def percentileOf (buckets : List (ℤ × ℕ)) (p : ℚ) : Option ℤ :=
  percentileMs buckets (bucketTotal buckets) p

/-- The rank of a share, or the last one if rounding has taken it further. -/
def rankOf (total : ℕ) (p : ℚ) : ℤ := min (percentileRank total p) total

/-- A percentile lies above the latency of its rank, by one bucket at most, and grows with the
share. -/
structure PercentileLaw (values : Multiset ℚ) : Prop where
  rank : ∀ p : ℚ, 0 < p → p ≤ 1 → ∃ stat x,
    orderStatistic values ((rankOf values.card p).toNat - 1) = some stat ∧
      percentileOf (latencyHistogram values).entries p = some x ∧
        stat < x ∧ x ≤ stat + latencyBucketMs
  mono : ∀ p q : ℚ, 0 < p → p ≤ q → q ≤ 1 → ∃ x y,
    percentileOf (latencyHistogram values).entries p = some x ∧
      percentileOf (latencyHistogram values).entries q = some y ∧ x ≤ y

section Buckets

theorem ofRows_latencyHistSql_eq_histogram (column : Row → Option ℚ) (rows : List Row) :
    GroupMap.ofRows (latencyHistSql column rows) =
      latencyHistogram (Multiset.ofList (rows.filterMap column)) := by
  have htotal : histOf column rows =
      total (fun v ↦ GroupMap.single (histBucket v) 1) (rows.filterMap column) :=
    (total_filterMap column rows).symm
  rw [ofRows_latencyHistSql, htotal, latencyHistogram, histogram, Multiset.map_coe,
    Multiset.sum_coe, total]

theorem bucketTotal_histogram (values : Multiset ℚ) :
    bucketTotal (latencyHistogram values).entries = values.card := by
  have hall : total (fun row ↦ if True then row.2 else 0) (latencyHistogram values).entries =
      values.countP fun _ ↦ True := total_histogram (fun _ ↦ True) values
  rwa [Multiset.countP_True] at hall

theorem castInteger_le {x y : ℚ} (hxy : x ≤ y) : castInteger x ≤ castInteger y := by
  rw [castInteger, castInteger]
  split
  · rename_i hx
    rw [if_pos (hx.trans hxy)]
    exact Int.floor_mono hxy
  · rename_i hx
    split
    · rename_i hy
      exact (Int.ceil_le.mpr (by exact_mod_cast (not_le.mp hx).le)).trans (Int.floor_nonneg.mpr hy)
    · exact Int.ceil_mono hxy

theorem histBucket_le {x y : ℚ} (hxy : x ≤ y) : histBucket x ≤ histBucket y := by
  refine castInteger_le (div_le_div_of_nonneg_right (min_le_min_right _ hxy) ?_)
  norm_num [latencyBucketMs]

theorem lt_upper {v : ℚ} (hv : 0 ≤ v) (hcap : v < latencyBucketCapMs) :
    0 ≤ histBucket v ∧ (histBucket v + 1) * latencyBucketMs ≤ latencyBucketCapMs ∧
      v < ((histBucket v + 1) * latencyBucketMs : ℤ) ∧
        ((histBucket v + 1) * latencyBucketMs : ℤ) ≤ v + latencyBucketMs := by
  have hwidth : (0 : ℚ) < latencyBucketMs := by norm_num [latencyBucketMs]
  have hbucket : histBucket v = ⌊v / latencyBucketMs⌋ := by
    rw [histBucket, min_eq_left hcap.le, castInteger, if_pos (div_nonneg hv hwidth.le)]
  have hle := Int.floor_le (v / latencyBucketMs)
  have hlt := Int.lt_floor_add_one (v / latencyBucketMs)
  rw [← hbucket, le_div_iff₀ hwidth] at hle
  rw [← hbucket, div_lt_iff₀ hwidth] at hlt
  have htop : histBucket v * latencyBucketMs < latencyBucketCapMs := by
    exact_mod_cast hle.trans_lt hcap
  refine ⟨?_, ?_, ?_, ?_⟩
  · rw [hbucket]
    exact Int.floor_nonneg.mpr (div_nonneg hv hwidth.le)
  · simp only [latencyBucketMs, latencyBucketCapMs] at htop ⊢
    omega
  · push_cast
    exact hlt
  · push_cast
    linarith

end Buckets

section Rank

theorem percentileBucket_append {rank : ℤ} (before after : List (ℤ × ℕ)) (bucket : ℤ) (n : ℕ)
    (acc : ℤ) (hbefore : acc + total (·.2) before < rank)
    (hrank : rank ≤ acc + total (·.2) before + n) :
    percentileBucket rank (before ++ (bucket, n) :: after) acc = some (bucket, true) := by
  induction before generalizing acc with
  | nil =>
    have hreached : rank ≤ acc + n := by simpa [total] using hrank
    rw [List.nil_append, percentileBucket, if_pos hreached]
  | cons row before ih =>
    rw [total_cons, Nat.cast_add] at hbefore hrank
    have hshort : ¬ rank ≤ acc + row.2 := by omega
    have hmore : (before ++ (bucket, n) :: after).isEmpty = false := by
      cases before <;> rfl
    rw [List.cons_append, percentileBucket, if_neg hshort, hmore]
    exact ih (acc + row.2) (by omega) (by omega)

theorem percentileBucket_last {rank : ℤ} (before : List (ℤ × ℕ)) (bucket : ℤ) (n : ℕ) (acc : ℤ)
    (hrank : acc + total (·.2) before + n < rank) :
    percentileBucket rank (before ++ [(bucket, n)]) acc = some (bucket, false) := by
  induction before generalizing acc with
  | nil =>
    have hshort : ¬ rank ≤ acc + n := by
      simp only [total, List.map_nil, List.sum_nil, Nat.cast_zero, add_zero] at hrank
      omega
    rw [List.nil_append, percentileBucket, if_neg hshort]
    rfl
  | cons row before ih =>
    rw [total_cons, Nat.cast_add] at hrank
    have hshort : ¬ rank ≤ acc + row.2 := by omega
    have hmore : (before ++ [(bucket, n)]).isEmpty = false := by
      cases before <;> rfl
    rw [List.cons_append, percentileBucket, if_neg hshort, hmore]
    exact ih (acc + row.2) (by omega)

variable {values : Multiset ℚ} {p q : ℚ}

theorem rankOf_bounds {n : ℕ} (hn : 0 < n) : 1 ≤ rankOf n p ∧ rankOf n p ≤ n :=
  ⟨le_min (le_max_right _ _) (by exact_mod_cast hn), min_le_right _ _⟩

theorem percentileRank_mono (n : ℕ) (hp : 0 ≤ p) (hpq : p ≤ q) :
    percentileRank n p ≤ percentileRank n q := by
  have hround := Binary64.nearest_nonneg (Nat.cast_nonneg (α := ℚ) n)
  have hceil : ⌈Binary64.mul p (Binary64.nearest n)⌉ ≤ ⌈Binary64.mul q (Binary64.nearest n)⌉ :=
    Int.ceil_mono (Binary64.nearest_mono (mul_nonneg hp hround)
      (mul_le_mul_of_nonneg_right hpq hround))
  rw [percentileRank, percentileRank, saturate, saturate]
  omega

theorem rankOf_eq {n : ℕ} (hn : 0 < n) (hcount : n ≤ 2 ^ 53) (hp : 0 ≤ p) (hp1 : p ≤ 1) :
    rankOf n p = max ⌈Binary64.mul p n⌉ 1 := by
  have hround := Binary64.nearest_natCast hcount
  have hceil : ⌈Binary64.mul p n⌉ ≤ n := by
    refine Int.ceil_le.mpr (le_trans (Binary64.nearest_mono ?_ ?_) hround.le)
    · exact mul_nonneg hp (Nat.cast_nonneg n)
    · exact mul_le_of_le_one_left (Nat.cast_nonneg n) hp1
  have hnonneg : 0 ≤ ⌈Binary64.mul p n⌉ :=
    Int.ceil_nonneg (Binary64.nearest_nonneg (mul_nonneg hp (Nat.cast_nonneg n)))
  rw [rankOf, percentileRank, hround, saturate, i64Min, i64Max]
  omega

/-- The rank is reached in the bucket of its latency; a rank above the total ends in the last one. -/
theorem percentileBucket_histogram {stat : ℚ} (hcard : 0 < values.card)
    (hstat : orderStatistic values ((rankOf values.card p).toNat - 1) = some stat) :
    ∃ reached, percentileBucket (percentileRank values.card p) (latencyHistogram values).entries 0 =
      some (histBucket stat, reached) := by
  obtain ⟨hone, hle⟩ := rankOf_bounds (p := p) hcard
  rcases le_or_gt (percentileRank values.card p) values.card with hwithin | hbeyond
  · rw [rankOf, min_eq_left hwithin] at hstat hone hle
    obtain ⟨before, n, after, hsplit, hbefore, hreached⟩ :=
      histogram_split (fun _ _ ↦ histBucket_le) hstat
    rw [latencyHistogram, hsplit]
    exact ⟨true, percentileBucket_append before after _ n 0 (by omega) (by omega)⟩
  · rw [rankOf, min_eq_right hbeyond.le, Int.toNat_natCast] at hstat
    obtain ⟨before, n, hsplit⟩ := histogram_last (fun _ _ ↦ histBucket_le) hstat
    have htotal := bucketTotal_histogram values
    rw [bucketTotal, latencyHistogram, hsplit, List.map_append, List.sum_append,
      List.map_singleton, List.sum_singleton] at htotal
    rw [latencyHistogram, hsplit]
    exact ⟨false, percentileBucket_last before _ n 0 (by rw [total]; omega)⟩

theorem saturate_upper {v : ℚ} (h : 0 ≤ v ∧ v < latencyBucketCapMs) :
    saturate ((histBucket v + 1) * latencyBucketMs) = (histBucket v + 1) * latencyBucketMs := by
  obtain ⟨hnonneg, htop, -, -⟩ := lt_upper h.1 h.2
  apply saturate_eq
  simp only [IsI64, i64Min, i64Max, latencyBucketMs, latencyBucketCapMs] at htop ⊢
  omega

theorem percentileOf_histogram (hrange : ∀ v ∈ values, 0 ≤ v ∧ v < latencyBucketCapMs)
    (hcard : 0 < values.card) (p : ℚ) : ∃ stat ∈ values,
      orderStatistic values ((rankOf values.card p).toNat - 1) = some stat ∧
        percentileOf (latencyHistogram values).entries p =
          some ((histBucket stat + 1) * latencyBucketMs) := by
  obtain ⟨hone, hle⟩ := rankOf_bounds (p := p) hcard
  have hplace : (rankOf values.card p).toNat - 1 < values.card := by omega
  obtain ⟨stat, hmem, hstat⟩ := orderStatistic_eq_some_of_lt hplace
  refine ⟨stat, hmem, hstat, ?_⟩
  obtain ⟨reached, hbucket⟩ := percentileBucket_histogram hcard hstat
  obtain ⟨-, htop, -, -⟩ := lt_upper (hrange stat hmem).1 (hrange stat hmem).2
  have hsaturate := saturate_upper (hrange stat hmem)
  rw [percentileOf, bucketTotal_histogram, percentileMs, if_neg hcard.ne', hbucket, Option.map_some]
  cases reached with
  | false => exact congrArg some hsaturate
  | true =>
    simp only [if_true, hsaturate, Option.some.injEq]
    rw [min_eq_left (htop.trans _)]
    decide

theorem percentileLaw (hrange : ∀ v ∈ values, 0 ≤ v ∧ v < latencyBucketCapMs)
    (hcard : 0 < values.card) : PercentileLaw values where
  rank := by
    intro p _ _
    obtain ⟨stat, hmem, hstat, hx⟩ := percentileOf_histogram hrange hcard p
    obtain ⟨-, -, hlt, hle⟩ := lt_upper (hrange stat hmem).1 (hrange stat hmem).2
    exact ⟨stat, _, hstat, hx, hlt, hle⟩
  mono := by
    intro p q hp hpq _
    obtain ⟨low, -, hlow, hx⟩ := percentileOf_histogram hrange hcard p
    obtain ⟨high, -, hhigh, hy⟩ := percentileOf_histogram hrange hcard q
    have hrank : rankOf values.card p ≤ rankOf values.card q :=
      min_le_min_right _ (percentileRank_mono _ hp.le hpq)
    have hlast := (rankOf_bounds (p := q) hcard).2
    have hstat : low ≤ high := orderStatistic_mono (by omega) hlow hhigh
    have hbucket := histBucket_le hstat
    refine ⟨_, _, hx, hy, ?_⟩
    simp only [latencyBucketMs]
    omega

theorem mergeHistogramMaps_pair (values other : Multiset ℚ) :
    mergeHistogramMaps [latencyHistogram values, latencyHistogram other] =
      (latencyHistogram (values + other)).entries := by
  rw [mergeHistogramMaps_eq, List.sum_cons, List.sum_singleton, latencyHistogram, latencyHistogram,
    latencyHistogram, histogram_add]

end Rank

/-- The percentiles of a histogram, however its latencies stand in the store, and those of two that
are merged. -/
theorem percentile_histogram (values other : Multiset ℚ) (hne : values ≠ 0)
    (hrange : ∀ v ∈ values, 0 ≤ v ∧ v < latencyBucketCapMs) :
    PercentileLaw values ∧
      (∀ (column : Row → Option ℚ) (rows : List Row), Multiset.ofList (rows.filterMap column) = values →
        GroupMap.ofRows (latencyHistSql column rows) = latencyHistogram values) ∧
      ∀ p : ℚ,
        percentileOf (mergeHistogramMaps [latencyHistogram values, latencyHistogram other]) p =
          percentileOf (latencyHistogram (values + other)).entries p :=
  ⟨percentileLaw hrange (Multiset.card_pos.mpr hne),
    fun column rows hvalues ↦ hvalues ▸ ofRows_latencyHistSql_eq_histogram column rows,
    fun p ↦ by rw [mergeHistogramMaps_pair]⟩

theorem percentile_histogram_edges : PercentileLaw {0, 50, 59999} ∧
    (∀ (column : Row → Option ℚ) (rows : List Row),
      Multiset.ofList (rows.filterMap column) = {0, 50, 59999} →
      GroupMap.ofRows (latencyHistSql column rows) = latencyHistogram {0, 50, 59999}) ∧
    ∀ p : ℚ,
      percentileOf (mergeHistogramMaps [latencyHistogram {0, 50, 59999}, latencyHistogram {49}]) p =
        percentileOf (latencyHistogram ({0, 50, 59999} + {49})).entries p :=
  percentile_histogram {0, 50, 59999} {49} (Multiset.cons_ne_zero) fun v hv ↦ by
    simp only [Multiset.insert_eq_cons, Multiset.mem_cons, Multiset.mem_singleton] at hv
    rcases hv with rfl | rfl | rfl <;> norm_num [latencyBucketCapMs]

def quickAndSlow : Multiset ℚ := 0 ::ₘ Multiset.replicate 9 100

theorem eq_of_mem_quickAndSlow {x : ℚ} (h : x ∈ quickAndSlow) : x = 0 ∨ x = 100 := by
  rw [quickAndSlow, Multiset.mem_cons] at h
  exact h.imp_right Multiset.eq_of_mem_replicate

theorem orderStatistic_quickAndSlow {i : ℕ} {x : ℚ} (h : orderStatistic quickAndSlow i = some x) :
    x = if i < 1 then 0 else 100 := by
  have hfirst : x ≤ 0 ↔ i < quickAndSlow.countP (· ≤ 0) :=
    orderStatistic_iff (fun _ _ ↦ le_trans) h
  rw [show quickAndSlow.countP (· ≤ 0) = 1 by decide +kernel] at hfirst
  rcases eq_of_mem_quickAndSlow ((Multiset.mem_sort (· ≤ ·)).mp (List.mem_of_getElem? h)) with
    rfl | rfl
  · rw [if_pos (hfirst.mp le_rfl)]
  · rw [if_neg fun hi ↦ absurd (hfirst.mpr hi) (by norm_num)]

/-- The double 0.1 is a little more than a tenth, so the rank of ten requests is two; the product is
rounded to one. -/
theorem percentile_of_first : ∃ p : ℚ, 0 < p ∧ p ≤ 1 ∧ ⌈p * quickAndSlow.card⌉ = 2 ∧
    orderStatistic quickAndSlow (2 - 1) = some 100 ∧
      percentileOf (latencyHistogram quickAndSlow).entries p = some 50 := by
  refine ⟨Binary64.nearest 0.1, by decide +kernel, by decide +kernel, by decide +kernel, ?_, ?_⟩
  · have hcard : 1 < quickAndSlow.card := by decide
    obtain ⟨x, -, hx⟩ := orderStatistic_eq_some_of_lt hcard
    rw [hx, orderStatistic_quickAndSlow hx]
    rfl
  · have hrange : ∀ v ∈ quickAndSlow, 0 ≤ v ∧ v < latencyBucketCapMs := by
      intro v hv
      rcases eq_of_mem_quickAndSlow hv with rfl | rfl
      · norm_num [latencyBucketCapMs]
      · norm_num [latencyBucketCapMs]
    obtain ⟨stat, -, hstat, hx⟩ :=
      percentileOf_histogram hrange (by decide) (Binary64.nearest 0.1)
    have hrank : rankOf quickAndSlow.card (Binary64.nearest 0.1) = 1 := by decide +kernel
    rw [hrank] at hstat
    rw [hx, orderStatistic_quickAndSlow hstat]
    decide +kernel

end QueQiao.AnalysisApi
