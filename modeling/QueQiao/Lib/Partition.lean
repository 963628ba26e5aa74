import QueQiao.Lib.Aggregation

namespace QueQiao.Lib.Aggregation

/-- A list of closed intervals, none of them empty, that follow each other without a gap and
together are the closed interval from `lo` to `hi`. -/
structure ClosedPartition (lo hi : ℤ) (parts : List (ℤ × ℤ)) : Prop where
  nonempty : ∀ part ∈ parts, part.1 ≤ part.2
  adjacent : parts.IsChain fun a b ↦ b.1 = a.2 + 1
  disjoint : parts.Pairwise fun a b ↦ a.2 < b.1
  union : ∀ t, (∃ part ∈ parts, part.1 ≤ t ∧ t ≤ part.2) ↔ lo ≤ t ∧ t ≤ hi

variable {lo hi : ℤ} {tiles : List (ℤ × ℤ)}

theorem Tiles.lo_le (h : Tiles lo hi tiles) : ∀ tile ∈ tiles, lo ≤ tile.1 := by
  induction h with
  | nil => exact fun tile htile ↦ absurd htile List.not_mem_nil
  | cons hle _ ih =>
    intro tile htile
    rcases List.mem_cons.mp htile with rfl | htile
    · exact le_rfl
    · exact hle.trans (ih tile htile)

theorem Tiles.adjacent (h : Tiles lo hi tiles) : tiles.IsChain fun a b ↦ b.1 = a.2 + 1 := by
  induction h with
  | nil => exact .nil
  | cons hle htiles ih =>
    cases htiles with
    | nil => exact .singleton _
    | cons => exact .cons_cons (Int.sub_add_cancel _ _).symm ih

theorem Tiles.disjoint (h : Tiles lo hi tiles) : tiles.Pairwise fun a b ↦ a.2 < b.1 := by
  induction h with
  | nil => exact .nil
  | cons hle htiles ih =>
    refine .cons (fun tile htile ↦ ?_) ih
    have hlo := htiles.lo_le tile htile
    simp only
    omega

theorem Tiles.union (h : Tiles lo hi tiles) (t : ℤ) :
    (∃ tile ∈ tiles, tile.1 ≤ t ∧ t ≤ tile.2) ↔ lo ≤ t ∧ t < hi := by
  induction h with
  | nil =>
    constructor
    · rintro ⟨tile, htile, -⟩
      cases htile
    · rintro ⟨hle, hlt⟩
      exact absurd hlt (not_lt.mpr hle)
  | cons hle htiles ih =>
    have hhi := htiles.le
    simp only [List.mem_cons, exists_eq_or_imp, ih]
    omega

theorem Tiles.partition (h : Tiles lo (hi + 1) tiles) (hne : ∀ tile ∈ tiles, tile.1 ≤ tile.2) :
    ClosedPartition lo hi tiles where
  nonempty := hne
  adjacent := h.adjacent
  disjoint := h.disjoint
  union := fun t ↦ by rw [h.union t, Int.lt_add_one_iff]

end QueQiao.Lib.Aggregation
