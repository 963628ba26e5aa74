import QueQiao.Handlers.AnalysisApi
import QueQiao.Lib.Partition
import QueQiao.Lib.Traversal

namespace QueQiao.AnalysisApi

open Lib.Aggregation Lib.Traversal

variable {fromMs toMs splits step : ℤ}

section Cut

/-- The cut of a range into slices of `step` milliseconds, of which the last takes what is left. -/
structure Cut (fromMs toMs splits step : ℤ) : Prop where
  splits_gt : 1 < splits
  splits_le : splits ≤ 4
  step_pos : 0 < step
  span_le : splits * step ≤ toMs - fromMs
  isI64 : splits * step ≤ i64Max

theorem Cut.offset (h : Cut fromMs toMs splits step) {i : ℤ} (hi : 0 ≤ i) (hle : i ≤ splits) :
    0 ≤ i * step ∧ i * step ≤ splits * step :=
  ⟨Int.mul_nonneg hi h.step_pos.le, Int.mul_le_mul_of_nonneg_right hle h.step_pos.le⟩

theorem Cut.start_isI64 (h : Cut fromMs toMs splits step) (hfrom : IsI64 fromMs) (hto : IsI64 toMs)
    {i : ℤ} (hi : 0 ≤ i) (hle : i ≤ splits) : IsI64 (i * step) ∧ IsI64 (fromMs + i * step) := by
  have hoffset := h.offset hi hle
  have hspan := h.span_le
  have hmax := h.isI64
  simp only [IsI64, i64Min, i64Max] at *
  omega

theorem Cut.saturate_start (h : Cut fromMs toMs splits step) (hfrom : IsI64 fromMs)
    (hto : IsI64 toMs) {i : ℤ} (hi : 0 ≤ i) (hle : i ≤ splits) :
    saturate (fromMs + saturate (i * step)) = fromMs + i * step := by
  obtain ⟨hoffset, hstart⟩ := h.start_isI64 hfrom hto hi hle
  rw [saturate_eq hoffset, saturate_eq hstart]

/-- The first times of the slices, and after the last slice the end of the range. -/
def sliceBound (fromMs toMs splits step : ℤ) (i : ℕ) : ℤ :=
  if (i : ℤ) = splits then toMs + 1 else fromMs + i * step

def cutSlices (fromMs toMs splits step : ℤ) : List (ℤ × ℤ) :=
  (List.range splits.toNat).map fun i ↦
    (sliceBound fromMs toMs splits step i, sliceBound fromMs toMs splits step (i + 1) - 1)

theorem Cut.bound_lt (h : Cut fromMs toMs splits step) {i : ℕ} (hi : i < splits.toNat) :
    sliceBound fromMs toMs splits step i < sliceBound fromMs toMs splits step (i + 1) := by
  have hpos := h.step_pos
  have hspan := h.span_le
  have hnext := (h.offset (i := i + 1) (by omega) (by omega)).2
  have hsucc : ((i + 1 : ℕ) : ℤ) * step = i * step + step := by
    push_cast
    ring
  rw [sliceBound, sliceBound, if_neg (by omega)]
  split
  · rename_i hlast
    rw [add_mul, one_mul] at hnext
    omega
  · rw [hsucc]
    omega

theorem Cut.tiles (h : Cut fromMs toMs splits step) :
    Tiles fromMs (toMs + 1) (cutSlices fromMs toMs splits step) := by
  have hsplits := h.splits_gt
  have htiles := @Tiles.range (sliceBound fromMs toMs splits step) splits.toNat
    fun i hi ↦ (h.bound_lt hi).le
  have hfirst : sliceBound fromMs toMs splits step 0 = fromMs := by
    rw [sliceBound, if_neg (by omega), Nat.cast_zero, zero_mul, add_zero]
  have hlast : sliceBound fromMs toMs splits step splits.toNat = toMs + 1 := by
    rw [sliceBound, if_pos (by omega)]
  rwa [hfirst, hlast] at htiles

end Cut

section Slices

inductive Sliced (fromMs toMs : ℤ) : List (ℤ × ℤ) → Prop
  | whole : Sliced fromMs toMs [(fromMs, toMs)]
  | cut {splits step : ℤ} (h : Cut fromMs toMs splits step) :
      Sliced fromMs toMs (cutSlices fromMs toMs splits step)

theorem cut_of_span {span count : ℤ} (hsaturated : saturate (toMs - fromMs) = span)
    (hlong : ¬(toMs ≤ fromMs ∨ span < dayMs))
    (hcut : ¬(max 1 (min 4 count) ≤ 1 ∨ span / max 1 (min 4 count) ≤ 0)) :
    Cut fromMs toMs (max 1 (min 4 count)) (span / max 1 (min 4 count)) := by
  have hspan : span ≤ toMs - fromMs ∧ span ≤ i64Max := by
    simp only [saturate, i64Min, i64Max, dayMs] at *
    omega
  have hmul : max 1 (min 4 count) * (span / max 1 (min 4 count)) ≤ span :=
    Int.mul_ediv_self_le (by omega)
  exact ⟨by omega, by omega, by omega, by omega, by omega⟩

theorem Cut.pushed (h : Cut fromMs toMs splits step) (hfrom : IsI64 fromMs) (hto : IsI64 toMs) :
    (List.range splits.toNat).map (fun i : ℕ ↦
      (if i = 0 then fromMs else saturate (fromMs + saturate (i * step)),
        if (i : ℤ) = splits - 1 then toMs
        else saturate (fromMs + saturate ((i + 1) * step)) - 1)) =
      cutSlices fromMs toMs splits step := by
  have hsplits := h.splits_gt
  refine List.map_congr_left fun i hi ↦ ?_
  have hi := List.mem_range.mp hi
  refine congrArg₂ Prod.mk ?_ ?_
  · rw [sliceBound, if_neg (by omega : ¬(i : ℤ) = splits)]
    split
    · rename_i hzero
      rw [hzero, Nat.cast_zero, zero_mul, add_zero]
    · exact h.saturate_start hfrom hto (by omega) (by omega)
  · rw [sliceBound]
    split
    · rw [if_pos (by omega : ((i + 1 : ℕ) : ℤ) = splits), Int.add_sub_cancel]
    · rw [if_neg (by omega : ¬((i + 1 : ℕ) : ℤ) = splits),
        h.saturate_start hfrom hto (by omega) (by omega), Nat.cast_succ]

theorem rangeSlices_sliced (hfrom : IsI64 fromMs) (hto : IsI64 toMs) :
    Sliced fromMs toMs (rangeSlices fromMs toMs) := by
  rw [rangeSlices]
  generalize hsaturated : saturate (toMs - fromMs) = span
  simp only
  split
  · exact .whole
  · rename_i hlong
    generalize (span / dayMs + if span % dayMs ≠ 0 then 1 else 0) = count
    split
    · exact .whole
    · rename_i hcut
      have h := cut_of_span hsaturated hlong hcut
      rw [h.pushed hfrom hto]
      exact .cut h

theorem rangeSlices_tiles (hfrom : IsI64 fromMs) (hto : IsI64 toMs) (hle : fromMs ≤ toMs) :
    Tiles fromMs (toMs + 1) (rangeSlices fromMs toMs) := by
  have h := rangeSlices_sliced hfrom hto
  generalize rangeSlices fromMs toMs = slices at h ⊢
  cases h with
  | whole => exact .single hle
  | cut h => exact h.tiles

end Slices

section Exact

def exactly (n : ℤ) : Option ℤ := if IsI64 n then some n else none

theorem exactly_eq {n : ℤ} (h : IsI64 n) : exactly n = some n := if_pos h

def exactStart (fromMs step i : ℤ) : Option ℤ :=
  (exactly (i * step)).bind fun offset ↦ exactly (fromMs + offset)

def exactSlice (fromMs toMs splits step : ℤ) (i : ℕ) : Option (ℤ × ℤ) :=
  (if i = 0 then some fromMs else exactStart fromMs step i).bind fun first ↦
    (exactly (splits - 1)).bind fun last ↦
      if i = last then some (first, toMs)
      else
        (exactly (i + 1)).bind fun following ↦ (exactStart fromMs step following).bind fun bound ↦
          (exactly (bound - 1)).map fun stop ↦ (first, stop)

/-- `range_slices` where every operation but the first subtraction has to be exact: none of them
overflows, and none saturates. -/
def rangeSlicesExact (fromMs toMs : ℤ) : Option (List (ℤ × ℤ)) :=
  let span := saturate (toMs - fromMs)
  if toMs ≤ fromMs ∨ span < dayMs then some [(fromMs, toMs)]
  else
    (exactly (span / dayMs)).bind fun days ↦ (exactly (span % dayMs)).bind fun rest ↦
      (exactly (days + if rest ≠ 0 then 1 else 0)).bind fun count ↦
        let splits := max 1 (min 4 count)
        (exactly (span / splits)).bind fun step ↦
          if splits ≤ 1 ∨ step ≤ 0 then some [(fromMs, toMs)]
          else (List.range splits.toNat).mapM (exactSlice fromMs toMs splits step)

theorem Cut.exactStart_eq (h : Cut fromMs toMs splits step) (hfrom : IsI64 fromMs)
    (hto : IsI64 toMs) {i : ℤ} (hi : 0 ≤ i) (hle : i ≤ splits) :
    exactStart fromMs step i = some (saturate (fromMs + saturate (i * step))) := by
  obtain ⟨hoffset, hstart⟩ := h.start_isI64 hfrom hto hi hle
  rw [h.saturate_start hfrom hto hi hle, exactStart, exactly_eq hoffset, Option.bind_some,
    exactly_eq hstart]

theorem Cut.exactSlice_eq (h : Cut fromMs toMs splits step) (hfrom : IsI64 fromMs)
    (hto : IsI64 toMs) {i : ℕ} (hi : (i : ℤ) < splits) :
    exactSlice fromMs toMs splits step i =
      some (if i = 0 then fromMs else saturate (fromMs + saturate (i * step)),
        if (i : ℤ) = splits - 1 then toMs
        else saturate (fromMs + saturate ((i + 1) * step)) - 1) := by
  have hfour := h.splits_le
  have hpos := h.step_pos
  have hlast : IsI64 (splits - 1) := by
    simp only [IsI64, i64Min, i64Max]
    omega
  have hfollowing : IsI64 ((i : ℤ) + 1) := by
    simp only [IsI64, i64Min, i64Max]
    omega
  have hstop : IsI64 (saturate (fromMs + saturate (((i : ℤ) + 1) * step)) - 1) := by
    have hoffset := (h.offset (i := i) (by omega) (by omega)).1
    have hstart := (h.start_isI64 hfrom hto (i := i + 1) (by omega) (by omega)).2
    have hsucc : ((i : ℤ) + 1) * step = i * step + step := by ring
    rw [h.saturate_start hfrom hto (by omega) (by omega)]
    simp only [IsI64, i64Min, i64Max] at *
    omega
  have hfirst : (if i = 0 then some fromMs else exactStart fromMs step i) =
      some (if i = 0 then fromMs else saturate (fromMs + saturate (i * step))) := by
    rw [h.exactStart_eq hfrom hto (by omega) (by omega)]
    exact (apply_ite some _ _ _).symm
  rw [exactSlice, hfirst, Option.bind_some, exactly_eq hlast, Option.bind_some]
  split
  · rfl
  · rw [exactly_eq hfollowing, Option.bind_some, h.exactStart_eq hfrom hto (by omega) (by omega),
      Option.bind_some, exactly_eq hstop]
    rfl

theorem rangeSlicesExact_eq (hfrom : IsI64 fromMs) (hto : IsI64 toMs) :
    rangeSlicesExact fromMs toMs = some (rangeSlices fromMs toMs) := by
  rw [rangeSlicesExact, rangeSlices]
  generalize hsaturated : saturate (toMs - fromMs) = span
  simp only
  split
  · rfl
  · rename_i hlong
    have hspan : 0 < span ∧ span ≤ i64Max := by
      simp only [saturate, i64Min, i64Max, dayMs] at *
      omega
    have hdays : IsI64 (span / dayMs) ∧ IsI64 (span % dayMs) := by
      simp only [IsI64, i64Min, i64Max, dayMs] at *
      omega
    have hcount : IsI64 (span / dayMs + if span % dayMs ≠ 0 then 1 else 0) := by
      simp only [IsI64, i64Min, i64Max, dayMs] at *
      split_ifs <;> omega
    rw [exactly_eq hdays.1, Option.bind_some, exactly_eq hdays.2, Option.bind_some,
      exactly_eq hcount, Option.bind_some]
    generalize (span / dayMs + if span % dayMs ≠ 0 then 1 else 0) = count
    have hstep : IsI64 (span / max 1 (min 4 count)) := by
      have hnonneg : 0 ≤ span / max 1 (min 4 count) := Int.ediv_nonneg hspan.1.le (by omega)
      have hle : span / max 1 (min 4 count) ≤ span := Int.ediv_le_self _ hspan.1.le
      simp only [IsI64, i64Min, i64Max] at *
      omega
    rw [exactly_eq hstep, Option.bind_some]
    split
    · rfl
    · rename_i hcut
      have h := cut_of_span hsaturated hlong hcut
      refine mapM_eq_map fun i hi ↦ h.exactSlice_eq hfrom hto ?_
      have hi := List.mem_range.mp hi
      omega

end Exact

section Partition

theorem Sliced.length_le {slices : List (ℤ × ℤ)} (h : Sliced fromMs toMs slices) :
    slices.length ≤ 4 := by
  cases h with
  | whole => exact Nat.le_of_ble_eq_true rfl
  | cut h =>
    have hfour := h.splits_le
    rw [cutSlices, List.length_map, List.length_range]
    omega

theorem Sliced.nonempty {slices : List (ℤ × ℤ)} (h : Sliced fromMs toMs slices)
    (hle : fromMs ≤ toMs) : ∀ slice ∈ slices, slice.1 ≤ slice.2 := by
  intro slice hslice
  cases h with
  | whole =>
    rw [List.mem_singleton] at hslice
    rwa [hslice]
  | cut h =>
    obtain ⟨i, hi, rfl⟩ := List.mem_map.mp hslice
    have hlt := h.bound_lt (List.mem_range.mp hi)
    simp only
    omega

/-- The slices of a range partition it, and are computed without an overflow. -/
theorem rangeSlices_partition (hfrom : IsI64 fromMs) (hto : IsI64 toMs) (hle : fromMs ≤ toMs) :
    rangeSlicesExact fromMs toMs = some (rangeSlices fromMs toMs) ∧
      (rangeSlices fromMs toMs).length ≤ 4 ∧
      ClosedPartition fromMs toMs (rangeSlices fromMs toMs) := by
  have hsliced := rangeSlices_sliced hfrom hto
  exact ⟨rangeSlicesExact_eq hfrom hto, hsliced.length_le,
    (rangeSlices_tiles hfrom hto hle).partition (hsliced.nonempty hle)⟩

theorem rangeSlices_partition_longest :
    rangeSlicesExact i64Min i64Max = some (rangeSlices i64Min i64Max) ∧
      (rangeSlices i64Min i64Max).length ≤ 4 ∧
      ClosedPartition i64Min i64Max (rangeSlices i64Min i64Max) :=
  rangeSlices_partition (by decide) (by decide) (by decide)

end Partition

end QueQiao.AnalysisApi
