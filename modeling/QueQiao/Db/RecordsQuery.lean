import QueQiao.Handlers.ErrorLog
import QueQiao.Lib.Paging
import Mathlib

namespace QueQiao.RecordsQuery

open ErrorLogApi Lib.Paging

def I64 (n : ℤ) : Prop := -0x8000000000000000 ≤ n ∧ n ≤ 0x7fffffffffffffff

instance (n : ℤ) : Decidable (I64 n) :=
  inferInstanceAs (Decidable (-0x8000000000000000 ≤ n ∧ n ≤ 0x7fffffffffffffff))

structure CursorKey where
  timeMs : ℤ
  id : ℤ
  shard : Option String
  deriving DecidableEq

def parseCursor (s : String) : Option CursorKey :=
  match s.toList.splitOn ':' with
  | [time, id] => do return ⟨← parseI64 time, ← parseI64 id, none⟩
  | [time, id, shard] =>
    if shard = [] then none
    else do return ⟨← parseI64 time, ← parseI64 id, some (String.ofList shard)⟩
  | _ => none

def formatCursor (timeMs id : ℤ) : Option String → String
  | some shard => toString timeMs ++ ":" ++ toString id ++ ":" ++ shard
  | none => toString timeMs ++ ":" ++ toString id

theorem digits_value (n : ℕ) :
    (Nat.toDigits 10 n).foldl (fun (n : ℤ) c ↦ 10 * n + (c.toNat - '0'.toNat : ℕ)) 0 = n := by
  have hcast : ∀ (digits : Text) (m : ℕ),
      digits.foldl (fun (n : ℤ) c ↦ 10 * n + (c.toNat - '0'.toNat : ℕ)) m =
        (Nat.ofDigitChars 10 digits m : ℕ) := by
    intro digits
    induction digits with
    | nil => exact fun m ↦ rfl
    | cons c digits ih =>
      intro m
      rw [List.foldl_cons, Nat.ofDigitChars_cons, ← ih]
      push_cast
      rfl
  exact (hcast _ 0).trans (congrArg Nat.cast Nat.ofDigitChars_ten_toDigits)

theorem toDigits_isDigit (n : ℕ) : (Nat.toDigits 10 n).all Char.isDigit = true := by
  apply List.all_eq_true.mpr
  intro c hc
  exact Nat.isDigit_of_mem_toDigits (by decide) (by decide) hc

theorem parseI64_toDigits {n : ℕ} (h : (n : ℤ) ≤ 0x7fffffffffffffff) :
    parseI64 (Nat.toDigits 10 n) = some (n : ℤ) := by
  have hdigits := toDigits_isDigit n
  have hvalue := digits_value n
  have hne : Nat.toDigits 10 n ≠ [] := Nat.toDigits_ne_nil
  cases hcases : Nat.toDigits 10 n with
  | nil => exact absurd hcases hne
  | cons c digits =>
    rw [hcases] at hdigits hvalue
    have hc : c.isDigit = true := List.all_eq_true.mp hdigits c List.mem_cons_self
    have hminus : c ≠ '-' := by
      rintro rfl
      revert hc
      decide
    have hplus : c ≠ '+' := by
      rintro rfl
      revert hc
      decide
    have hlow : -0x8000000000000000 ≤ (n : ℤ) := by omega
    have hfold : digits.foldl (fun (n : ℤ) c ↦ 10 * n + (c.toNat - 48 : ℕ))
        (c.toNat - 48 : ℕ) = n := by
      simpa using hvalue
    simp [parseI64, hminus, hplus, hdigits, hfold, hlow, h]

theorem parseI64_neg_toDigits {n : ℕ} (h : -0x8000000000000000 ≤ -(n : ℤ)) :
    parseI64 ('-' :: Nat.toDigits 10 n) = some (-(n : ℤ)) := by
  have hhigh : -(n : ℤ) ≤ 0x7fffffffffffffff := by omega
  simp only [parseI64, ne_eq, Nat.toDigits_ne_nil, not_false_eq_true, toDigits_isDigit, and_self,
    if_true, digits_value, List.head?_cons, h, hhigh]

theorem parseI64_toString {n : ℤ} (h : I64 n) : parseI64 (toString n).toList = some n := by
  rw [Int.toString_eq_repr, Int.repr_eq_if]
  split
  · rename_i hpos
    rw [Nat.toList_repr, parseI64_toDigits (by rw [Int.toNat_of_nonneg hpos]; exact h.2),
      Int.toNat_of_nonneg hpos]
  · rename_i hneg
    have hcast : ((-n).toNat : ℤ) = -n := Int.toNat_of_nonneg (by omega)
    rw [String.toList_append, Nat.toList_repr]
    refine (parseI64_neg_toDigits (by rw [hcast, Int.neg_neg]; exact h.1)).trans ?_
    rw [hcast, Int.neg_neg]

theorem colon_not_mem_toString (n : ℤ) : ':' ∉ (toString n).toList := by
  have hnat : ∀ m : ℕ, ':' ∉ m.repr.toList := by
    intro m hmem
    rw [Nat.toList_repr] at hmem
    exact absurd (List.all_eq_true.mp (toDigits_isDigit m) ':' hmem) (by decide)
  rw [Int.toString_eq_repr, Int.repr_eq_if]
  split
  · exact hnat n.toNat
  · intro hmem
    rw [String.toList_append] at hmem
    rcases List.mem_append.mp hmem with hmem | hmem
    · revert hmem
      decide
    · exact hnat _ hmem

theorem parseCursor_formatCursor {timeMs id : ℤ} {shard : String} (htime : I64 timeMs)
    (hid : I64 id) (hne : shard ≠ "") (hcolon : ':' ∉ shard.toList) :
    parseCursor (formatCursor timeMs id (some shard)) = some ⟨timeMs, id, some shard⟩ := by
  have hsplit : (formatCursor timeMs id (some shard)).toList.splitOn ':' =
      [(toString timeMs).toList, (toString id).toList, shard.toList] := by
    have htext : (formatCursor timeMs id (some shard)).toList =
        (toString timeMs).toList ++ ':' :: ((toString id).toList ++ ':' :: shard.toList) := by
      simp [formatCursor]
    rw [htext, List.splitOn_append_cons_self_of_not_mem (colon_not_mem_toString timeMs),
      List.splitOn_append_cons_self_of_not_mem (colon_not_mem_toString id),
      List.splitOn_eq_singleton hcolon]
  have hshard : shard.toList ≠ [] := by
    intro hnil
    exact hne (String.toList_eq_nil_iff.mp hnil)
  simp only [parseCursor, hsplit, if_neg hshard, parseI64_toString htime, parseI64_toString hid,
    String.ofList_toList]
  rfl

/-- A row of `records`; `data` is what the list shows beside the id and the time. -/
structure Record (α : Type) where
  id : ℤ
  timeMs : Option ℤ
  data : α

/-- A store, with the primary key of its rows and columns of 64 bits. -/
structure Shard (α : Type) where
  id : String
  rows : List (Record α)
  nodup : (rows.map Record.id).Nodup
  ids : ∀ row ∈ rows, I64 row.id
  times : ∀ row ∈ rows, ∀ t ∈ row.timeMs, I64 t

/-- `others` stands for the conditions of `build_filters` beside those on the time. -/
structure ListParams (α : Type) where
  fromMs : Option ℤ := none
  toMs : Option ℤ := none
  others : Record α → Bool := fun _ ↦ true
  cursor : Option String := none
  limit : Option ℤ := none

structure Item (α : Type) where
  timeMs : ℤ
  id : ℤ
  shard : String
  record : Record α

structure Page (α : Type) where
  items : List (Item α)
  nextCursor : Option String
  total : ℤ
  totalExact : Bool

def activeShard : String := "active"

def countCap : ℤ := 10000

def i64Max : ℤ := 0x7fffffffffffffff

section Query

variable {α : Type}

/-- A comparison with a `NULL` holds of no row. -/
def buildFilters (params : ListParams α) (row : Record α) : Bool :=
  params.fromMs.all (fun v ↦ row.timeMs.any (v ≤ ·)) &&
    params.toMs.all (fun v ↦ row.timeMs.any (· ≤ v)) && params.others row

def cursorWhere (cursor : CursorKey) (shardId : String) (row : Record α) : Bool :=
  match cursor.shard with
  | some cursorShard =>
    let shardLess := decide (shardId < cursorShard)
    row.timeMs.any fun t ↦ decide (toLex (t, row.id) < toLex (cursor.timeMs, cursor.id)) ||
      (decide ((t, row.id) = (cursor.timeMs, cursor.id)) && shardLess)
  | none => row.timeMs.any fun t ↦ decide (toLex (t, row.id) < toLex (cursor.timeMs, cursor.id))

/-- `ORDER BY TimeMs DESC, id DESC`: `NULL` is the least of the times. -/
def Record.order (row : Record α) : WithBot ℤ ×ₗ ℤ :=
  toLex (row.timeMs.elim ⊥ WithBot.some, row.id)

def Record.toItem (shardId : String) (row : Record α) : Option (Item α) :=
  row.timeMs.map fun timeMs ↦ ⟨timeMs, row.id, shardId, row⟩

def queryShard (params : ListParams α) (cursor : Option CursorKey) (limit : ℤ) (shard : Shard α) :
    List (Item α) :=
  let rows := shard.rows.filter fun row ↦
    buildFilters params row && cursor.all fun c ↦ cursorWhere c shard.id row
  ((sortDesc Record.order rows).take (limit + 1).toNat).filterMap (Record.toItem shard.id)

def Item.position (item : Item α) : ℤ ×ₗ ℤ ×ₗ String :=
  toLex (item.timeMs, toLex (item.id, item.shard))

def CursorKey.after (cursor : CursorKey) (item : Item α) : Bool :=
  match cursor.shard with
  | some cursorShard =>
    decide (item.position < toLex (cursor.timeMs, toLex (cursor.id, cursorShard)))
  | none => decide (toLex (item.timeMs, item.id) < toLex (cursor.timeMs, cursor.id))

def countShard (params : ListParams α) (shard : Shard α) : ℤ :=
  ((shard.rows.filter (buildFilters params)).take countCap.toNat).length

def clampedLimit (params : ListParams α) : ℤ := max 1 (min 500 (params.limit.getD 50))

def allShards (active : Shard α) (archives : List (Shard α)) : List (Shard α) :=
  { active with id := activeShard } :: archives

def queryRecordsMulti (active : Shard α) (archives : List (Shard α)) (params : ListParams α) :
    Page α :=
  let limit := clampedLimit params
  let cursor := params.cursor.bind parseCursor
  let shards := allShards active archives
  let totalSum := shards.foldl (fun sum shard ↦ min i64Max (sum + countShard params shard)) 0
  let results := shards.flatMap (queryShard params cursor limit)
  let retained := results.filter fun item ↦ cursor.all fun c ↦ c.after item
  let rows := sortDesc Item.position retained
  let hasMore := decide (limit < rows.length)
  let rows := if hasMore then rows.take limit.toNat else rows
  let nextCursor :=
    if hasMore then
      rows.getLast?.map fun item ↦ formatCursor item.timeMs item.id (some item.shard)
    else none
  ⟨rows, nextCursor, min totalSum countCap, decide (totalSum < countCap)⟩

def matchingRows (params : ListParams α) (cursor : Option CursorKey) (shard : Shard α) :
    List (Record α) :=
  shard.rows.filter fun row ↦ buildFilters params row && cursor.all fun c ↦ cursorWhere c shard.id row

def matchingItems (params : ListParams α) (cursor : Option CursorKey) (shard : Shard α) :
    List (Item α) :=
  (matchingRows params cursor shard).filterMap (Record.toItem shard.id)

def matching (params : ListParams α) (shards : List (Shard α)) : List (Item α) :=
  shards.flatMap (matchingItems params none)

variable {params : ListParams α} {cursor : Option CursorKey} {shard : Shard α}

theorem timeMs_isSome (hrange : params.fromMs.isSome ∨ params.toMs.isSome) {row : Record α}
    (h : buildFilters params row = true) : row.timeMs.isSome := by
  rw [buildFilters, Bool.and_eq_true, Bool.and_eq_true] at h
  obtain ⟨⟨hfrom, hto⟩, -⟩ := h
  cases htime : row.timeMs with
  | some t => rfl
  | none =>
    rw [htime] at hfrom hto
    rcases hrange with hrange | hrange
    · obtain ⟨v, hv⟩ := Option.isSome_iff_exists.mp hrange
      rw [hv] at hfrom
      cases hfrom
    · obtain ⟨v, hv⟩ := Option.isSome_iff_exists.mp hrange
      rw [hv] at hto
      cases hto

def itemOf (shardId : String) (row : Record α) : Item α :=
  ⟨row.timeMs.getD 0, row.id, shardId, row⟩

theorem toItem_eq {shardId : String} {row : Record α} (h : row.timeMs.isSome) :
    row.toItem shardId = some (itemOf shardId row) := by
  obtain ⟨t, ht⟩ := Option.isSome_iff_exists.mp h
  rw [Record.toItem, itemOf, ht]
  rfl

theorem filterMap_toItem {shardId : String} {rows : List (Record α)}
    (h : ∀ row ∈ rows, row.timeMs.isSome) :
    rows.filterMap (Record.toItem shardId) = rows.map (itemOf shardId) := by
  rw [← List.filterMap_eq_map]
  exact List.filterMap_congr fun row hrow ↦ toItem_eq (h row hrow)

theorem order_le_iff {shardId : String} {a b : Record α} (ha : a.timeMs.isSome)
    (hb : b.timeMs.isSome) :
    a.order ≤ b.order ↔ (itemOf shardId a).position ≤ (itemOf shardId b).position := by
  obtain ⟨s, hs⟩ := Option.isSome_iff_exists.mp ha
  obtain ⟨t, ht⟩ := Option.isSome_iff_exists.mp hb
  simp only [Record.order, Item.position, itemOf, hs, ht, Option.elim_some, Option.getD_some,
    Prod.Lex.toLex_le_toLex, WithBot.coe_lt_coe, WithBot.coe_inj, le_refl, and_true]
  rw [le_iff_lt_or_eq]

theorem queryShard_eq (hrange : params.fromMs.isSome ∨ params.toMs.isSome) (limit : ℤ) :
    queryShard params cursor limit shard =
      (sortDesc Item.position (matchingItems params cursor shard)).take (limit + 1).toNat := by
  have htimes : ∀ row ∈ matchingRows params cursor shard, row.timeMs.isSome := by
    intro row hrow
    exact timeMs_isSome hrange (Bool.and_eq_true_iff.mp (List.mem_filter.mp hrow).2).1
  have hsorted : (sortDesc Record.order (matchingRows params cursor shard)).map (itemOf shard.id) =
      sortDesc Item.position ((matchingRows params cursor shard).map (itemOf shard.id)) := by
    apply List.map_mergeSort
    intro a ha b hb
    exact decide_eq_decide.mpr (order_le_iff (htimes b hb) (htimes a ha))
  rw [matchingItems, filterMap_toItem htimes, ← hsorted, ← List.map_take]
  apply filterMap_toItem
  intro row hrow
  exact htimes row (mem_sortDesc.mp (List.mem_of_mem_take hrow))

theorem mem_matchingItems {item : Item α} :
    item ∈ matchingItems params cursor shard ↔
      item ∈ matchingItems params none shard ∧ ∀ c ∈ cursor, cursorWhere c shard.id item.record := by
  have hrecord : ∀ row : Record α, row.toItem shard.id = some item → item.record = row := by
    intro row hrow
    obtain ⟨t, -, rfl⟩ := Option.map_eq_some_iff.mp hrow
    rfl
  simp only [matchingItems, matchingRows, List.mem_filterMap, List.mem_filter, Option.all_none,
    Bool.and_true, Bool.and_eq_true, Option.all_eq_true]
  constructor
  · rintro ⟨row, ⟨hrow, hmatch, hcursor⟩, hitem⟩
    refine ⟨⟨row, ⟨hrow, hmatch⟩, hitem⟩, ?_⟩
    rw [hrecord row hitem]
    exact hcursor
  · rintro ⟨⟨row, ⟨hrow, hmatch⟩, hitem⟩, hcursor⟩
    refine ⟨row, ⟨hrow, hmatch, ?_⟩, hitem⟩
    rw [← hrecord row hitem]
    exact hcursor

theorem cursorWhere_eq {item : Item α} {c : CursorKey} (h : item ∈ matchingItems params none shard) :
    cursorWhere c shard.id item.record = c.after item := by
  obtain ⟨row, -, hitem⟩ := List.mem_filterMap.mp h
  obtain ⟨t, ht, rfl⟩ := Option.map_eq_some_iff.mp hitem
  rw [cursorWhere, CursorKey.after]
  cases c.shard with
  | none => simp only [ht, Option.any_some]
  | some cursorShard =>
    simp only [ht, Option.any_some, Item.position]
    rw [← Bool.decide_and, ← Bool.decide_or]
    apply decide_eq_decide.mpr
    simp only [Prod.Lex.toLex_lt_toLex, Prod.mk.injEq]
    rw [or_assoc, and_or_left, and_assoc]

theorem shard_of_mem {item : Item α} (h : item ∈ matchingItems params cursor shard) :
    item.shard = shard.id := by
  obtain ⟨row, -, hitem⟩ := List.mem_filterMap.mp h
  obtain ⟨t, -, rfl⟩ := Option.map_eq_some_iff.mp hitem
  rfl

theorem ids_sublist (shardId : String) (rows : List (Record α)) :
    ((rows.filterMap (Record.toItem shardId)).map Item.id).Sublist (rows.map Record.id) := by
  induction rows with
  | nil => exact List.Sublist.refl []
  | cons row rows ih =>
    rw [List.filterMap_cons, List.map_cons]
    cases h : row.toItem shardId with
    | none => exact ih.cons row.id
    | some item =>
      obtain ⟨t, -, rfl⟩ := Option.map_eq_some_iff.mp h
      exact ih.cons_cons row.id

theorem positions_nodup_shard : ((matchingItems params cursor shard).map Item.position).Nodup := by
  have hids : ((matchingItems params cursor shard).map Item.id).Nodup :=
    (shard.nodup.sublist (List.filter_sublist.map Record.id)).sublist (ids_sublist shard.id _)
  refine List.Nodup.of_map (fun position ↦ (ofLex (ofLex position).2).1) ?_
  rw [List.map_map]
  exact hids

theorem positions_nodup {shards : List (Shard α)} (h : (shards.map Shard.id).Nodup) :
    ((shards.flatMap (matchingItems params cursor)).map Item.position).Nodup := by
  rw [List.map_flatMap]
  refine List.nodup_flatMap.mpr ⟨fun shard _ ↦ positions_nodup_shard, ?_⟩
  refine (List.pairwise_map.mp h).imp ?_
  intro a b hne position ha hb
  obtain ⟨x, hx, hposition⟩ := List.mem_map.mp ha
  obtain ⟨y, hy, rfl⟩ := List.mem_map.mp hb
  have hshard : x.shard = y.shard := congrArg (fun p ↦ (ofLex (ofLex p).2).2) hposition
  rw [shard_of_mem hx, shard_of_mem hy] at hshard
  exact hne hshard

theorem take_results (cursor : Option CursorKey) {shards : List (Shard α)}
    (hids : (shards.map Shard.id).Nodup)
    (hrange : params.fromMs.isSome ∨ params.toMs.isSome) (limit : ℤ) :
    (sortDesc Item.position (shards.flatMap (queryShard params cursor limit))).take
        (limit + 1).toNat =
      (sortDesc Item.position (shards.flatMap (matchingItems params cursor))).take
        (limit + 1).toNat := by
  have hparts : shards.flatMap (queryShard params cursor limit) =
      (shards.map fun shard ↦ sortDesc Item.position (matchingItems params cursor shard)).flatMap
        (List.take (limit + 1).toNat) := by
    rw [List.flatMap_map]
    exact List.flatMap_congr fun shard _ ↦ queryShard_eq hrange limit
  rw [hparts]
  apply take_merge
  · exact sortDesc_descending (positions_nodup hids)
  · intro part hpart
    obtain ⟨shard, -, rfl⟩ := List.mem_map.mp hpart
    exact sortDesc_descending positions_nodup_shard
  · refine (sortDesc_perm Item.position _).trans ?_
    rw [← List.flatMap_def]
    exact List.Perm.flatMap_left shards fun shard _ ↦ (sortDesc_perm Item.position _).symm

theorem retained_eq {shards : List (Shard α)} (hrange : params.fromMs.isSome ∨ params.toMs.isSome)
    (limit : ℤ) :
    (shards.flatMap (queryShard params cursor limit)).filter
        (fun item ↦ cursor.all fun c ↦ c.after item) =
      shards.flatMap (queryShard params cursor limit) := by
  apply List.filter_eq_self.mpr
  intro item hitem
  obtain ⟨shard, -, hitem⟩ := List.mem_flatMap.mp hitem
  rw [queryShard_eq hrange] at hitem
  obtain ⟨hmatch, hcursor⟩ :=
    mem_matchingItems.mp (mem_sortDesc.mp (List.mem_of_mem_take hitem))
  apply (Option.all_eq_true _ _).mpr
  intro c hc
  rw [← cursorWhere_eq hmatch]
  exact hcursor c hc

theorem queryRecordsMulti_eq (params : ListParams α) {active : Shard α}
    {archives : List (Shard α)} (hids : ((allShards active archives).map Shard.id).Nodup)
    (hrange : params.fromMs.isSome ∨ params.toMs.isSome) :
    ((queryRecordsMulti active archives params).items,
      (queryRecordsMulti active archives params).nextCursor) =
    cut (clampedLimit params).toNat
      (fun item ↦ formatCursor item.timeMs item.id (some item.shard))
      (sortDesc Item.position ((allShards active archives).flatMap
        (matchingItems params (params.cursor.bind parseCursor)))) := by
  have hlimit : (clampedLimit params + 1).toNat = (clampedLimit params).toNat + 1 := by
    rw [clampedLimit]
    omega
  have htake := take_results (params.cursor.bind parseCursor) hids hrange (clampedLimit params)
  simp only [queryRecordsMulti, retained_eq hrange]
  generalize sortDesc Item.position ((allShards active archives).flatMap
    (queryShard params (params.cursor.bind parseCursor) (clampedLimit params))) = merged at htake ⊢
  generalize sortDesc Item.position ((allShards active archives).flatMap
    (matchingItems params (params.cursor.bind parseCursor))) = whole at htake ⊢
  rw [hlimit] at htake
  have hlength := congrArg List.length htake
  rw [List.length_take, List.length_take] at hlength
  have hfirst : merged.take (clampedLimit params).toNat = whole.take (clampedLimit params).toNat := by
    have hcut := congrArg (List.take (clampedLimit params).toNat) htake
    rwa [List.take_take, List.take_take, Nat.min_eq_left (Nat.le_succ _)] at hcut
  rw [cut]
  by_cases hmore : clampedLimit params < merged.length
  · have hwhole : (clampedLimit params).toNat < whole.length := by omega
    rw [if_pos hwhole, ← hfirst]
    simp [hmore]
  · have hwhole : ¬(clampedLimit params).toNat < whole.length := by omega
    have hmerged : merged.length ≤ (clampedLimit params).toNat := by omega
    rw [if_neg hwhole, ← hfirst, List.take_of_length_le hmerged]
    simp [hmore]

def listing (active : Shard α) (archives : List (Shard α)) (params : ListParams α)
    (cursor : Option String) : List (Item α) × Option String :=
  let page := queryRecordsMulti active archives { params with cursor := cursor }
  (page.items, page.nextCursor)

def encode (item : Item α) : String := formatCursor item.timeMs item.id (some item.shard)

theorem parseCursor_encode {shards : List (Shard α)}
    (hnames : ∀ shard ∈ shards, shard.id ≠ "" ∧ ':' ∉ shard.id.toList) {item : Item α}
    (h : item ∈ matching params shards) :
    parseCursor (encode item) = some ⟨item.timeMs, item.id, some item.shard⟩ := by
  obtain ⟨shard, hshard, hitem⟩ := List.mem_flatMap.mp h
  obtain ⟨hne, hcolon⟩ := hnames shard hshard
  rw [← shard_of_mem hitem] at hne hcolon
  obtain ⟨row, hrow, hrowitem⟩ := List.mem_filterMap.mp hitem
  obtain ⟨t, ht, rfl⟩ := Option.map_eq_some_iff.mp hrowitem
  have hmem := List.mem_of_mem_filter hrow
  exact parseCursor_formatCursor (shard.times row hmem t ht) (shard.ids row hmem) hne hcolon

theorem sortDesc_after {shards : List (Shard α)} (hids : (shards.map Shard.id).Nodup)
    (item : Item α) :
    sortDesc Item.position (shards.flatMap
        (matchingItems params (some ⟨item.timeMs, item.id, some item.shard⟩))) =
      (sortDesc Item.position (matching params shards)).filter
        fun other ↦ decide (other.position < item.position) := by
  have hwhole : Descending Item.position (sortDesc Item.position (matching params shards)) :=
    sortDesc_descending (positions_nodup hids)
  apply (sortDesc_descending (positions_nodup hids)).eq_of_mem_iff
    (List.Pairwise.sublist List.filter_sublist hwhole)
  intro other
  rw [mem_sortDesc, List.mem_filter, mem_sortDesc, matching]
  simp only [List.mem_flatMap]
  constructor
  · rintro ⟨shard, hshard, hother⟩
    obtain ⟨hmatch, hcursor⟩ := mem_matchingItems.mp hother
    have hafter := hcursor _ rfl
    rw [cursorWhere_eq hmatch] at hafter
    exact ⟨⟨shard, hshard, hmatch⟩, hafter⟩
  · rintro ⟨⟨shard, hshard, hmatch⟩, hafter⟩
    refine ⟨shard, hshard, mem_matchingItems.mpr ⟨hmatch, ?_⟩⟩
    intro c hc
    cases hc
    rw [cursorWhere_eq hmatch]
    exact hafter

/-- Following the cursors lists every row that matches once, in order, and ends. -/
theorem listing_complete (active : Shard α) (archives : List (Shard α)) (params : ListParams α)
    (hids : ((allShards active archives).map Shard.id).Nodup)
    (hnames : ∀ shard ∈ archives, shard.id ≠ "" ∧ ':' ∉ shard.id.toList)
    (hrange : params.fromMs.isSome ∨ params.toMs.isSome) :
    (∀ item ∈ matching params (allShards active archives),
      parseCursor (encode item) = some ⟨item.timeMs, item.id, some item.shard⟩) ∧
    ∃ listed : List (Item α),
      (∀ fuel, (matching params (allShards active archives)).length < fuel →
        follow (listing active archives params) fuel none = some listed) ∧
      listed.Perm (matching params (allShards active archives)) ∧
      Descending Item.position listed := by
  have hall : ∀ shard ∈ allShards active archives, shard.id ≠ "" ∧ ':' ∉ shard.id.toList := by
    intro shard hshard
    rcases List.mem_cons.mp hshard with rfl | hshard
    · have hactive : activeShard ≠ "" ∧ ':' ∉ activeShard.toList := by decide
      exact hactive
    · exact hnames shard hshard
  have hdesc : Descending Item.position
      (sortDesc Item.position (matching params (allShards active archives))) :=
    sortDesc_descending (positions_nodup hids)
  refine ⟨fun item hitem ↦ parseCursor_encode hall hitem,
    sortDesc Item.position (matching params (allShards active archives)), ?_,
    sortDesc_perm Item.position _, hdesc⟩
  intro fuel hfuel
  have hlimit : 0 < (clampedLimit params).toNat := by
    rw [clampedLimit]
    omega
  have hpage : ∀ cursor, listing active archives params cursor =
      cut (clampedLimit params).toNat encode (sortDesc Item.position
        ((allShards active archives).flatMap (matchingItems params (cursor.bind parseCursor)))) :=
    fun cursor ↦ queryRecordsMulti_eq { params with cursor := cursor } hids hrange
  refine follow_eq hlimit hdesc ?_ (List.nil_append _).symm (hpage none) ?_
  · intro item hitem
    rw [hpage, Option.bind_some, parseCursor_encode hall (mem_sortDesc.mp hitem),
      sortDesc_after hids item]
  · rw [(sortDesc_perm Item.position _).length_eq]
    exact hfuel

end Query

def activeRows : Shard Unit where
  id := activeShard
  rows := [⟨5, some 100, ()⟩, ⟨3, some 100, ()⟩, ⟨9, none, ()⟩]
  nodup := by decide
  ids := by decide
  times := by decide

def archivedRows : Shard Unit where
  id := "record_202608"
  rows := [⟨5, some 100, ()⟩, ⟨2, some 70, ()⟩]
  nodup := by decide
  ids := by decide
  times := by decide

def sinceZero : ListParams Unit where
  fromMs := some 0
  limit := some 1

theorem listing_complete_two :
    (matching sinceZero (allShards activeRows [archivedRows])).length = 4 ∧
    ∃ listed, follow (listing activeRows [archivedRows] sinceZero) 5 none = some listed ∧
      listed.Perm (matching sinceZero (allShards activeRows [archivedRows])) ∧
      Descending Item.position listed := by
  have hlength : (matching sinceZero (allShards activeRows [archivedRows])).length = 4 := by
    decide +kernel
  refine ⟨hlength, ?_⟩
  obtain ⟨-, listed, hfollow, hperm, hdesc⟩ := listing_complete activeRows [archivedRows] sinceZero
    (by decide) (by decide) (.inl rfl)
  exact ⟨listed, hfollow 5 (by omega), hperm, hdesc⟩

end QueQiao.RecordsQuery
