import QueQiao.Db.RecordsQuery

namespace QueQiao.RecordsQuery

open ErrorLogApi Lib.Paging

section Active

variable {α : Type}

/-- A page of the active store. A row stands for the item that `row_to_item` makes of it. -/
structure ActivePage (α : Type) where
  items : List (Record α)
  nextCursor : Option String
  total : ℤ
  totalExact : Bool

def withCursor (cursor : Option CursorKey) (row : Record α) : Bool :=
  cursor.all fun c ↦ row.timeMs.any fun t ↦ decide (toLex (t, row.id) < toLex (c.timeMs, c.id))

def queryRecordsActive (store : Shard α) (params : ListParams α) : ActivePage α :=
  let limit := clampedLimit params
  let total := countShard params store
  let rows := store.rows.filter fun row ↦
    buildFilters params row && withCursor (params.cursor.bind parseCursor) row
  let items := (sortDesc Record.order rows).take (limit + 1).toNat
  let hasMore := decide (limit < items.length)
  let items := if hasMore then items.dropLast else items
  let nextCursor :=
    if hasMore then
      items.getLast?.bind fun item ↦ item.timeMs.map fun t ↦ formatCursor t item.id none
    else none
  ⟨items, nextCursor, total, decide (total < countCap)⟩

def activePages (store : Shard α) (params : ListParams α) (cursor : Option String) :
    List (Record α) × Option String :=
  let page := queryRecordsActive store { params with cursor := cursor }
  (page.items, page.nextCursor)

def countedRows (store : Shard α) (params : ListParams α) : List (Record α) :=
  store.rows.filter (buildFilters params)

theorem total_eq (store : Shard α) (params : ListParams α) :
    (queryRecordsActive store params).total =
      min ((countedRows store params).length : ℤ) countCap := by
  have hcap : (countCap.toNat : ℤ) = countCap := by decide
  change (((countedRows store params).take countCap.toNat).length : ℤ) = _
  rw [List.length_take, Nat.cast_min, hcap, min_comm]

def newestFirst (store : Shard α) (params : ListParams α) : List (Record α) :=
  sortDesc Record.order (countedRows store params)

def hasTime (row : Record α) : Bool := row.timeMs.isSome

def activeCursor (row : Record α) : Option String :=
  row.timeMs.map fun t ↦ formatCursor t row.id none

/-- What the cursor of a page is for the rows it is cut from. -/
def cutActive (limit : ℕ) (rows : List (Record α)) : List (Record α) × Option String :=
  (rows.take limit, if limit < rows.length then (rows.take limit).getLast?.bind activeCursor else none)

def pageLimit (params : ListParams α) : ℕ := (clampedLimit params).toNat

theorem pageLimit_pos (params : ListParams α) : 0 < pageLimit params := by
  rw [pageLimit, clampedLimit]
  omega

theorem activePages_eq (store : Shard α) (params : ListParams α) (cursor : Option String) :
    activePages store params cursor =
      cutActive (pageLimit params) (sortDesc Record.order
        ((countedRows store params).filter (withCursor (cursor.bind parseCursor)))) := by
  have hlimit : (clampedLimit params + 1).toNat = pageLimit params + 1 := by
    rw [pageLimit, clampedLimit]
    omega
  have hcast : clampedLimit params = pageLimit params := by
    rw [pageLimit, clampedLimit]
    omega
  have hrows : (store.rows.filter fun row ↦
      buildFilters params row && withCursor (cursor.bind parseCursor) row) =
        (countedRows store params).filter (withCursor (cursor.bind parseCursor)) := by
    rw [countedRows, List.filter_filter]
    exact List.filter_congr fun row _ ↦ Bool.and_comm _ _
  rw [← hrows]
  generalize hsorted : sortDesc Record.order (store.rows.filter fun row ↦
    buildFilters params row && withCursor (cursor.bind parseCursor) row) = sorted
  have hpage : activePages store params cursor =
      let items := sorted.take (pageLimit params + 1)
      let hasMore := decide (pageLimit params < items.length)
      let items := if hasMore then items.dropLast else items
      (items, if hasMore then items.getLast?.bind activeCursor else none) := by
    have hparams : clampedLimit { params with cursor := cursor } = clampedLimit params := rfl
    rw [activePages, queryRecordsActive, hparams, hlimit, hcast, ← hsorted]
    simp only [Nat.cast_lt]
    rfl
  rw [hpage, cutActive]
  by_cases hmore : pageLimit params < sorted.length
  · have hlength : pageLimit params < (sorted.take (pageLimit params + 1)).length := by
      rw [List.length_take]
      omega
    have hdrop : (sorted.take (pageLimit params + 1)).dropLast = sorted.take (pageLimit params) := by
      rw [List.dropLast_eq_take, List.take_take, List.length_take]
      congr 1
      omega
    simp only [hlength, hmore, decide_true, if_true, hdrop]
  · have hall : sorted.take (pageLimit params + 1) = sorted.take (pageLimit params) := by
      rw [List.take_of_length_le (by omega), List.take_of_length_le (by omega)]
    have hlength : ¬pageLimit params < (sorted.take (pageLimit params)).length := by
      rw [List.length_take]
      omega
    simp only [hall, hlength, hmore, decide_false, Bool.false_eq_true, if_false]

variable {store : Shard α} {params : ListParams α}

theorem orders_nodup {rows : List (Record α)} (h : (rows.map Record.id).Nodup) :
    (rows.map Record.order).Nodup := by
  refine List.Nodup.of_map (fun order ↦ (ofLex order).2) ?_
  rw [List.map_map]
  exact h

theorem counted_nodup (q : Record α → Bool) :
    (((countedRows store params).filter q).map Record.id).Nodup :=
  store.nodup.sublist ((List.filter_sublist.trans List.filter_sublist).map Record.id)

theorem newestFirst_descending (store : Shard α) (params : ListParams α) :
    Descending Record.order (newestFirst store params) :=
  sortDesc_descending (orders_nodup (store.nodup.sublist (List.filter_sublist.map Record.id)))

theorem hasTime_of_lt {a b : Record α} (ha : hasTime a = true) (h : a.order < b.order) :
    hasTime b = true := by
  obtain ⟨s, hs⟩ := Option.isSome_iff_exists.mp ha
  cases hb : b.timeMs with
  | some t => rw [hasTime, hb, Option.isSome_some]
  | none =>
    rw [Record.order, Record.order, hs, hb, Prod.Lex.toLex_lt_toLex] at h
    rcases h with h | h
    · exact absurd h (not_lt_bot)
    · exact absurd h.1 (by simp)

def timedFirst (store : Shard α) (params : ListParams α) : List (Record α) :=
  (newestFirst store params).filter hasTime

theorem timedFirst_append (store : Shard α) (params : ListParams α) :
    timedFirst store params ++ (newestFirst store params).filter (fun row ↦ !hasTime row) =
      newestFirst store params :=
  (newestFirst_descending store params).filter_append_filter fun _ _ ↦ hasTime_of_lt

theorem parseCursor_formatCursor_pair {timeMs id : ℤ} (htime : I64 timeMs) (hid : I64 id) :
    parseCursor (formatCursor timeMs id none) = some ⟨timeMs, id, none⟩ := by
  have htext : (formatCursor timeMs id none).toList =
      (toString timeMs).toList ++ ':' :: (toString id).toList := by
    simp [formatCursor]
  have hsplit : (formatCursor timeMs id none).toList.splitOn ':' =
      [(toString timeMs).toList, (toString id).toList] := by
    rw [htext, List.splitOn_append_cons_self_of_not_mem (colon_not_mem_toString timeMs),
      List.splitOn_eq_singleton (colon_not_mem_toString id)]
  simp only [parseCursor, hsplit, parseI64_toString htime, parseI64_toString hid]
  rfl

def encodeRow (row : Record α) : String := formatCursor (row.timeMs.getD 0) row.id none

theorem activeCursor_eq {row : Record α} (h : hasTime row = true) :
    activeCursor row = some (encodeRow row) := by
  obtain ⟨t, ht⟩ := Option.isSome_iff_exists.mp h
  rw [activeCursor, encodeRow, ht]
  rfl

theorem sortDesc_withCursor {row : Record α} (hrow : row ∈ timedFirst store params) :
    sortDesc Record.order ((countedRows store params).filter
        (withCursor ((some (encodeRow row)).bind parseCursor))) =
      (timedFirst store params).filter fun other ↦ decide (other.order < row.order) := by
  obtain ⟨hmem, htime⟩ := List.mem_filter.mp hrow
  obtain ⟨t, ht⟩ := Option.isSome_iff_exists.mp htime
  have hstored : row ∈ store.rows := List.mem_of_mem_filter (mem_sortDesc.mp hmem)
  have hparse : parseCursor (encodeRow row) = some ⟨t, row.id, none⟩ := by
    rw [encodeRow, ht]
    exact parseCursor_formatCursor_pair (store.times row hstored t ht) (store.ids row hstored)
  have hwhole := newestFirst_descending store params
  rw [Option.bind_some, hparse]
  apply (sortDesc_descending (orders_nodup (counted_nodup _))).eq_of_mem_iff
    (hwhole.sublist (List.filter_sublist.trans List.filter_sublist))
  intro other
  simp only [newestFirst, List.mem_filter, mem_sortDesc, and_assoc]
  refine and_congr_right fun _ ↦ ?_
  rw [withCursor, Option.all_some, hasTime]
  cases hother : other.timeMs with
  | none => simp
  | some s => simp [Record.order, hother, ht, Prod.Lex.toLex_lt_toLex]

theorem firstPage_eq (store : Shard α) (params : ListParams α) :
    activePages store params none = cutActive (pageLimit params) (newestFirst store params) := by
  have hall : (countedRows store params).filter (withCursor ((none : Option String).bind parseCursor)) =
      countedRows store params := List.filter_eq_self.mpr fun _ _ ↦ rfl
  rw [activePages_eq, hall]
  rfl

theorem cutActive_eq_cut {rows : List (Record α)} (h : ∀ row ∈ rows, hasTime row = true) (n : ℕ) :
    cutActive n rows = cut n encodeRow rows := by
  rw [cutActive, cut]
  cases hlast : (rows.take n).getLast? with
  | none => rfl
  | some row =>
    have hrow := h row (List.mem_of_mem_take (List.mem_of_getLast? hlast))
    simp only [Option.bind_some, Option.map_some, activeCursor_eq hrow]

theorem nextPage_eq {row : Record α} (hrow : row ∈ timedFirst store params) :
    activePages store params (some (encodeRow row)) =
      cut (pageLimit params) encodeRow
        ((timedFirst store params).filter fun other ↦ decide (other.order < row.order)) := by
  rw [activePages_eq, sortDesc_withCursor hrow]
  apply cutActive_eq_cut
  intro other hother
  exact (List.mem_filter.mp (List.mem_filter.mp hother).1).2

/-- The rows that the pages list: behind the first page there are none without a time, and there
is no page behind one that ends in such a row. -/
def listedRows (store : Shard α) (params : ListParams α) : List (Record α) :=
  if (newestFirst store params).length ≤ pageLimit params then newestFirst store params
  else if pageLimit params ≤ (timedFirst store params).length then timedFirst store params
  else (newestFirst store params).take (pageLimit params)

/-- A first page that ends in a row with a time goes on with the other rows that have one. -/
theorem follow_of_timed (hmore : pageLimit params < (newestFirst store params).length)
    (htimed : pageLimit params ≤ (timedFirst store params).length) {fuel : ℕ}
    (hfuel : (timedFirst store params).length - pageLimit params < fuel) :
    follow (activePages store params) (fuel + 1) none = some (timedFirst store params) := by
  have htake : (newestFirst store params).take (pageLimit params) =
      (timedFirst store params).take (pageLimit params) := by
    rw [← timedFirst_append store params, List.take_append_of_le_length htimed]
  have hne : (timedFirst store params).take (pageLimit params) ≠ [] := by
    have hpos := pageLimit_pos params
    apply List.ne_nil_of_length_pos
    rw [List.length_take]
    omega
  obtain ⟨init, last, hlast⟩ := (List.eq_nil_or_concat _).resolve_left hne
  rw [List.concat_eq_append] at hlast
  have hsplit : timedFirst store params =
      init ++ last :: (timedFirst store params).drop (pageLimit params) := by
    rw [← List.singleton_append, ← List.append_assoc, ← hlast, List.take_append_drop]
  have hmem : last ∈ timedFirst store params := by
    rw [hsplit]
    exact List.mem_append_right _ List.mem_cons_self
  have hdesc : Descending Record.order (timedFirst store params) :=
    (newestFirst_descending store params).sublist List.filter_sublist
  have hpage : activePages store params (some (encodeRow last)) =
      cut (pageLimit params) encodeRow ((timedFirst store params).drop (pageLimit params)) := by
    have hafter := filter_after (hsplit ▸ hdesc)
    rw [← hsplit] at hafter
    rw [nextPage_eq hmem, hafter]
  have hrest := follow_eq (pageLimit_pos params) hdesc (fun row hrow ↦ nextPage_eq hrow)
    (hsplit.trans (List.append_cons _ _ _)) hpage (by rwa [List.length_drop])
  have hcursor : activeCursor last = some (encodeRow last) :=
    activeCursor_eq (List.mem_filter.mp hmem).2
  rw [follow, firstPage_eq, cutActive, if_pos hmore, htake, hlast, List.getLast?_concat]
  simp only [Option.bind_some, hcursor, hrest, Option.map_some]
  rw [List.append_assoc, List.singleton_append, ← hsplit]

theorem follow_of_untimed (hmore : pageLimit params < (newestFirst store params).length)
    (huntimed : (timedFirst store params).length < pageLimit params) (fuel : ℕ) :
    follow (activePages store params) (fuel + 1) none =
      some ((newestFirst store params).take (pageLimit params)) := by
  have happend := timedFirst_append store params
  have hlength := congrArg List.length happend
  have hnone : ((newestFirst store params).take (pageLimit params)).getLast?.bind activeCursor =
      none := by
    have htake : (newestFirst store params).take (pageLimit params) =
        timedFirst store params ++ ((newestFirst store params).filter fun row ↦ !hasTime row).take
          (pageLimit params - (timedFirst store params).length) := by
      conv_lhs => rw [← happend]
      rw [List.take_append, List.take_of_length_le huntimed.le]
    have hne : ((newestFirst store params).filter fun row ↦ !hasTime row).take
        (pageLimit params - (timedFirst store params).length) ≠ [] := by
      apply List.ne_nil_of_length_pos
      rw [List.length_append] at hlength
      rw [List.length_take]
      omega
    obtain ⟨init, last, hlast⟩ := (List.eq_nil_or_concat _).resolve_left hne
    rw [List.concat_eq_append] at hlast
    have hmem : last ∈ (newestFirst store params).filter fun row ↦ !hasTime row := by
      apply List.mem_of_mem_take
      rw [hlast]
      exact List.mem_append_right _ List.mem_cons_self
    have hnotime : last.timeMs = none := by
      have htime := (List.mem_filter.mp hmem).2
      rwa [Bool.not_eq_true', hasTime, Option.isSome_eq_false_iff, Option.isNone_iff_eq_none] at htime
    rw [htake, hlast, ← List.append_assoc, List.getLast?_concat, Option.bind_some, activeCursor,
      hnotime]
    rfl
  rw [follow, firstPage_eq, cutActive, if_pos hmore, hnone]

theorem follow_active {fuel : ℕ} (hfuel : (countedRows store params).length < fuel) :
    follow (activePages store params) fuel none = some (listedRows store params) := by
  obtain ⟨fuel, rfl⟩ := Nat.exists_eq_add_one_of_ne_zero (Nat.ne_of_gt (Nat.zero_lt_of_lt hfuel))
  have hlength : (newestFirst store params).length = (countedRows store params).length :=
    (sortDesc_perm Record.order _).length_eq
  rw [listedRows]
  by_cases hfew : (newestFirst store params).length ≤ pageLimit params
  · rw [if_pos hfew, follow, firstPage_eq, cutActive, if_neg (Nat.not_lt.mpr hfew),
      List.take_of_length_le hfew]
  · have hmore := Nat.lt_of_not_le hfew
    rw [if_neg hfew]
    by_cases htimed : pageLimit params ≤ (timedFirst store params).length
    · have hsub : (timedFirst store params).length ≤ (newestFirst store params).length :=
        List.length_filter_le _ _
      have hpos := pageLimit_pos params
      rw [if_pos htimed, follow_of_timed hmore htimed (by omega)]
    · rw [if_neg htimed, follow_of_untimed hmore (Nat.lt_of_not_le htimed)]

theorem listedRows_sublist (store : Shard α) (params : ListParams α) :
    (listedRows store params).Sublist (newestFirst store params) := by
  rw [listedRows]
  split
  · exact List.Sublist.refl _
  · split
    · exact List.filter_sublist
    · exact List.take_sublist _ _

theorem length_timedFirst_eq_iff :
    (timedFirst store params).length = (newestFirst store params).length ↔
      ∀ row ∈ countedRows store params, row.timeMs.isSome := by
  rw [timedFirst, List.length_filter_eq_length_iff]
  constructor
  · intro h row hrow
    exact h row (mem_sortDesc.mpr hrow)
  · intro h row hrow
    exact h row (mem_sortDesc.mp hrow)

theorem listedRows_perm_iff : (listedRows store params).Perm (countedRows store params) ↔
    (∀ row ∈ countedRows store params, row.timeMs.isSome) ∨
      (countedRows store params).length ≤ pageLimit params := by
  have hperm := sortDesc_perm Record.order (countedRows store params)
  have hlength : (newestFirst store params).length = (countedRows store params).length :=
    hperm.length_eq
  have hsub := listedRows_sublist store params
  have hiff : (listedRows store params).Perm (countedRows store params) ↔
      (listedRows store params).length = (newestFirst store params).length := by
    constructor
    · intro h
      rw [h.length_eq, hlength]
    · intro h
      rw [hsub.eq_of_length h]
      exact hperm
  rw [hiff, ← length_timedFirst_eq_iff, ← hlength, listedRows]
  by_cases hfew : (newestFirst store params).length ≤ pageLimit params
  · simp [hfew]
  · rw [if_neg hfew]
    by_cases htimed : pageLimit params ≤ (timedFirst store params).length
    · simp [htimed, hfew]
    · rw [if_neg htimed, List.length_take]
      omega

/-- The cursors lead to an end, and on the way every counted row is listed once. -/
def ListsAll (store : Shard α) (params : ListParams α) : Prop :=
  ∃ fuel listed, follow (activePages store params) fuel none = some listed ∧
    listed.Perm (countedRows store params)

/-- Following the cursors always ends, lists no row twice and none that is not counted; it lists
all of them just when they all have a time, or fit on one page. -/
theorem listsAll_iff (store : Shard α) (params : ListParams α) :
    (∃ fuel listed, follow (activePages store params) fuel none = some listed ∧ listed.Nodup ∧
      ∀ row ∈ listed, row ∈ countedRows store params) ∧
    (ListsAll store params ↔ (∀ row ∈ countedRows store params, row.timeMs.isSome) ∨
      (countedRows store params).length ≤ pageLimit params) := by
  have hfollow := @follow_active _ store params _ (Nat.lt_succ_self _)
  refine ⟨⟨_, _, hfollow, ?_, ?_⟩, ?_⟩
  · exact (newestFirst_descending store params).nodup.sublist (listedRows_sublist store params)
  · intro row hrow
    exact mem_sortDesc.mp ((listedRows_sublist store params).subset hrow)
  · rw [← listedRows_perm_iff]
    constructor
    · intro ⟨fuel, listed, hlisted, hperm⟩
      rwa [follow_unique hfollow hlisted]
    · intro h
      exact ⟨_, _, hfollow, h⟩

end Active

def oneByOne : ListParams Unit where
  limit := some 1

theorem untimed_row_not_listed :
    (queryRecordsActive activeRows oneByOne).total = 3 ∧ ¬ListsAll activeRows oneByOne := by
  refine ⟨by decide +kernel, fun h ↦ ?_⟩
  obtain ⟨fuel, listed, hlisted, hperm⟩ := h
  have hfollow := @follow_active _ activeRows oneByOne _ (Nat.lt_succ_self _)
  rw [← follow_unique hfollow hlisted, listedRows_perm_iff] at hperm
  exact absurd hperm (by decide +kernel)

end QueQiao.RecordsQuery
