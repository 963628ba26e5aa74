import QueQiao.Db.LegacyRows
import QueQiao.Lib.Keyset

namespace QueQiao.Legacy

open Audit Lib.Keyset

def plaintextColumns : List String := ["Request", "Response", "Headers"]

def selectColumns : List String :=
  ["id", "Time", "Type", "Headers", "Request", "Response", "Tool", "Multimodal"]

/-- A database with the legacy columns, in the order of its primary key; some rows can have a
payload already. -/
structure LegacyTable where
  columns : List String
  rows : List LegacyRow
  payloads : List Row
  legacy : ∀ c ∈ selectColumns, c ∈ columns
  ascending : Ascending LegacyRow.id rows

structure Archive where
  columns : List String
  rows : List LegacyRow
  payloads : List Row

def hasPayload (payloads : List Row) (id : ℤ) : Bool :=
  payloads.any fun row ↦ row.column "record_id" = .integer id

structure Migration where
  rows : List LegacyRow
  payloads : List Row

def migrationBatch : ℕ := 500

def dropPlaintext (columns : List String) (row : LegacyRow) : LegacyRow :=
  { row with
    request := if "Request" ∈ columns then none else row.request
    response := if "Response" ∈ columns then none else row.response
    headers := if "Headers" ∈ columns then none else row.headers }

def recordOf (row : LegacyRow) : Record :=
  ⟨row.request.getD "", row.response.getD "", row.headers.getD ""⟩

section

variable {Headers : Type} (extraction : Extraction Headers) (parsers : Parsers Headers)
variable (zstd : Zstd) (dict : Dict) (pattern : ℤ → Pattern)

def itemOf (row : LegacyRow) : AuditItem := logRequest zstd dict (pattern row.id) (recordOf row)

def payloadRow (row : LegacyRow) : Row :=
  let item := itemOf zstd dict pattern row
  payloadParams row.id item.request item.response item.headers

def insertPayload (payloads : List Row) (row : LegacyRow) : List Row :=
  if hasPayload payloads row.id then payloads else payloads ++ [payloadRow zstd dict pattern row]

def migrateRow (s : Migration) (row : LegacyRow) : Migration where
  rows := s.rows.map fun r ↦ if r.id = row.id then convertRow extraction parsers row else r
  payloads := insertPayload zstd dict pattern s.payloads row

/-- `HasPayload` is that of the `SELECT`, before the rows of the batch are converted. -/
def migrateRows (s : Migration) (rows : List LegacyRow) : Migration :=
  (rows.filter fun row ↦ !hasPayload s.payloads row.id).foldl
    (migrateRow extraction parsers zstd dict pattern) s

def migrateArchive (table : LegacyTable) (fuel : ℕ) : Option Archive :=
  let s : Migration := ⟨table.rows, table.payloads⟩
  let migrated := if "Request" ∈ table.columns then
      forBatches LegacyRow.id migrationBatch Migration.rows
        (migrateRows extraction parsers zstd dict pattern) fuel (some 0) s
    else some s
  migrated.map fun s ↦
    { columns := table.columns.filter (· ∉ plaintextColumns)
      rows := s.rows.map (dropPlaintext table.columns)
      payloads := s.payloads }

def migrateOne (s : Migration) (row : LegacyRow) : Migration :=
  if hasPayload s.payloads row.id then s else migrateRow extraction parsers zstd dict pattern s row

variable {extraction parsers zstd dict pattern}

theorem hasPayload_append (payloads payloads' : List Row) (id : ℤ) :
    hasPayload (payloads ++ payloads') id = (hasPayload payloads id || hasPayload payloads' id) :=
  List.any_append

theorem hasPayload_payloadRow (row : LegacyRow) (id : ℤ) :
    hasPayload [payloadRow zstd dict pattern row] id = decide (row.id = id) := by
  have hcolumn : (payloadRow zstd dict pattern row).column "record_id" = .integer row.id := rfl
  simp [hasPayload, hcolumn]

theorem hasPayload_insertPayload_of_ne (payloads : List Row) {row : LegacyRow} {id : ℤ}
    (h : row.id ≠ id) :
    hasPayload (insertPayload zstd dict pattern payloads row) id = hasPayload payloads id := by
  rw [insertPayload]
  split
  · rfl
  · rw [hasPayload_append, hasPayload_payloadRow, decide_eq_false h, Bool.or_false]

theorem migrateRows_eq (s : Migration) {rows : List LegacyRow} (h : Ascending LegacyRow.id rows) :
    migrateRows extraction parsers zstd dict pattern s rows =
      rows.foldl (migrateOne extraction parsers zstd dict pattern) s := by
  induction rows generalizing s with
  | nil => rfl
  | cons row rows ih =>
    have hne : ∀ r ∈ rows, row.id ≠ r.id := fun r hr ↦ (List.rel_of_pairwise_cons h hr).ne
    rw [List.foldl_cons, ← ih _ h.tail, migrateOne]
    by_cases hpayload : hasPayload s.payloads row.id = true
    · rw [if_pos hpayload, migrateRows, List.filter_cons_of_neg (by simp [hpayload]), migrateRows]
    · rw [if_neg hpayload, migrateRows, List.filter_cons_of_pos (by simp [hpayload]),
        List.foldl_cons, migrateRows]
      congr 1
      refine List.filter_congr fun r hr ↦ ?_
      rw [migrateRow, hasPayload_insertPayload_of_ne s.payloads (hne r hr)]

theorem id_ite_convertRow (row r : LegacyRow) :
    (if r.id = row.id then convertRow extraction parsers row else r).id = r.id := by
  split
  · rename_i heq
    rw [heq]
    rfl
  · rfl

theorem ids_migrateOne (s : Migration) (row : LegacyRow) :
    (migrateOne extraction parsers zstd dict pattern s row).rows.map LegacyRow.id =
      s.rows.map LegacyRow.id := by
  rw [migrateOne]
  split
  · rfl
  · rw [migrateRow, List.map_map]
    exact List.map_congr_left fun r _ ↦ id_ite_convertRow row r

theorem payloads_migrateOne (s : Migration) (row : LegacyRow) :
    (migrateOne extraction parsers zstd dict pattern s row).payloads =
      insertPayload zstd dict pattern s.payloads row := by
  rw [migrateOne, insertPayload]
  split
  · rfl
  · rename_i hpayload
    rw [migrateRow, insertPayload, if_neg hpayload]

theorem keepsRest_migrateOne : KeepsRest LegacyRow.id Migration.rows
    (migrateOne extraction parsers zstd dict pattern) where
  ascending s row h := by
    rw [Ascending, ← List.pairwise_map] at h ⊢
    rwa [ids_migrateOne]
  rest s row := by
    rw [migrateOne]
    split
    · rfl
    · refine after_map (id_ite_convertRow row) fun r hr ↦ ?_
      exact if_neg hr.ne'

theorem ids_foldl (rows : List LegacyRow) (s : Migration) :
    (rows.foldl (migrateOne extraction parsers zstd dict pattern) s).rows.map LegacyRow.id =
      s.rows.map LegacyRow.id := by
  induction rows generalizing s with
  | nil => rfl
  | cons row rows ih => rw [List.foldl_cons, ih, ids_migrateOne]

theorem payloads_foldl {rows : List LegacyRow} (h : Ascending LegacyRow.id rows) (s : Migration) :
    (rows.foldl (migrateOne extraction parsers zstd dict pattern) s).payloads =
      s.payloads ++ (rows.filter fun row ↦ !hasPayload s.payloads row.id).map
        (payloadRow zstd dict pattern) := by
  induction rows generalizing s with
  | nil => exact (List.append_nil _).symm
  | cons row rows ih =>
    have hne : ∀ r ∈ rows, row.id ≠ r.id := fun r hr ↦ (List.rel_of_pairwise_cons h hr).ne
    have hrest : (rows.filter fun r ↦
          !hasPayload (insertPayload zstd dict pattern s.payloads row) r.id) =
        rows.filter fun r ↦ !hasPayload s.payloads r.id :=
      List.filter_congr fun r hr ↦ by rw [hasPayload_insertPayload_of_ne s.payloads (hne r hr)]
    rw [List.foldl_cons, ih h.tail, payloads_migrateOne, hrest, insertPayload]
    by_cases hpayload : hasPayload s.payloads row.id = true
    · rw [if_pos hpayload, List.filter_cons_of_neg (by simp [hpayload])]
    · rw [if_neg hpayload, List.filter_cons_of_pos (by simp [hpayload]), List.append_assoc,
        List.map_cons, List.singleton_append]

def LegacyTable.converted (table : LegacyTable) : List LegacyRow :=
  (after LegacyRow.id (some 0) table.rows).filter fun row ↦ !hasPayload table.payloads row.id

theorem migrateArchive_eq (table : LegacyTable) {fuel : ℕ} (hfuel : table.rows.length < fuel) :
    ∃ archive, migrateArchive extraction parsers zstd dict pattern table fuel = some archive ∧
      archive.rows.map LegacyRow.id = table.rows.map LegacyRow.id ∧
      archive.payloads =
        table.payloads ++ table.converted.map (payloadRow zstd dict pattern) := by
  let s : Migration := ⟨table.rows, table.payloads⟩
  let rows := after LegacyRow.id (some 0) table.rows
  have hrequest : "Request" ∈ table.columns := table.legacy _ (by decide)
  have hkeep : KeepsRest LegacyRow.id Migration.rows
      (migrateOne extraction parsers zstd dict pattern) := keepsRest_migrateOne
  have hrows : rows.length < fuel := (List.length_filter_le _ _).trans_lt hfuel
  have hloop : forBatches LegacyRow.id migrationBatch Migration.rows
      (migrateRows extraction parsers zstd dict pattern) fuel (some 0) s =
        some (rows.foldl (migrateOne extraction parsers zstd dict pattern) s) :=
    forBatches_eq (by decide) hkeep (fun s part hpart ↦ migrateRows_eq s hpart)
      table.ascending hrows
  rw [migrateArchive, if_pos hrequest, hloop, Option.map_some]
  refine ⟨_, rfl, ?_, payloads_foldl (ascending_filter table.ascending _) s⟩
  have hdrop : LegacyRow.id ∘ dropPlaintext table.columns = LegacyRow.id := rfl
  rw [List.map_map, hdrop]
  exact ids_foldl rows s

theorem column_eq_of_hasPayload {payloads : List Row} {id : ℤ} (h : hasPayload payloads id = false)
    {row : Row} (hrow : row ∈ payloads) : row.column "record_id" ≠ .integer id := by
  simpa using List.any_eq_false.mp h row hrow

theorem loadPayloadFrom_append {payloads payloads' : List Row} {id : ℤ}
    (h : hasPayload payloads id = false) :
    loadPayloadFrom zstd dict (payloads ++ payloads') id =
      loadPayloadFrom zstd dict payloads' id := by
  have hnone : payloads.find? (fun row ↦ row.column "record_id" = .integer id) = none :=
    List.find?_eq_none.mpr fun row hrow ↦ by simpa using column_eq_of_hasPayload h hrow
  rw [loadPayloadFrom, loadPayloadFrom, selectPayload, selectPayload, List.find?_append, hnone,
    Option.none_or]

theorem loadPayloadFrom_of_not_hasPayload {payloads : List Row} {id : ℤ}
    (h : hasPayload payloads id = false) : loadPayloadFrom zstd dict payloads id = none := by
  have hnil : loadPayloadFrom zstd dict [] id = none := rfl
  rw [← loadPayloadFrom_append h, List.append_nil] at hnil
  exact hnil

def LegacyTable.items (table : LegacyTable) (zstd : Zstd) (dict : Dict) (pattern : ℤ → Pattern) :
    Table AuditItem where
  rows := table.converted.map fun row ↦ (row.id, itemOf zstd dict pattern row)
  nodup := by
    rw [List.map_map]
    exact (ascending_filter (ascending_filter table.ascending _) _).nodup_keys

theorem payloads_items (table : LegacyTable) :
    (table.items zstd dict pattern).payloads =
      table.converted.map (payloadRow zstd dict pattern) := List.map_map

theorem hasPayload_converted (table : LegacyTable) {id : ℤ} (h : ¬0 < id) :
    hasPayload (table.converted.map (payloadRow zstd dict pattern)) id = false := by
  rw [hasPayload, List.any_map, List.any_eq_false]
  intro row hrow
  have hpos : 0 < row.id := (mem_after.mp (List.mem_of_mem_filter hrow)).2
  have hcolumn : (payloadRow zstd dict pattern row).column "record_id" = .integer row.id := rfl
  simp only [Function.comp_apply, hcolumn, DbValue.integer.injEq, decide_eq_true_eq]
  omega

theorem loadPayloadFrom_converted (table : LegacyTable) {row : LegacyRow} (hrow : row ∈ table.rows)
    (hpayload : hasPayload table.payloads row.id = false) (hpos : 0 < row.id) :
    loadPayloadFrom zstd dict
        (table.payloads ++ table.converted.map (payloadRow zstd dict pattern)) row.id =
      let item := itemOf zstd dict pattern row
      some ⟨decodeText zstd dict item.request.codec item.request.dictId item.request.bytes,
        decodeText zstd dict item.request.codec item.request.dictId item.response.bytes,
        decodeText zstd dict item.request.codec item.request.dictId item.headers.bytes⟩ := by
  have hconverted : row ∈ table.converted :=
    List.mem_filter.mpr ⟨mem_after.mpr ⟨hrow, hpos⟩, by simpa using hpayload⟩
  have hmem : (row.id, itemOf zstd dict pattern row) ∈ (table.items zstd dict pattern).rows :=
    List.mem_map_of_mem hconverted
  rw [loadPayloadFrom_append hpayload, ← payloads_items]
  exact loadPayloadFrom_of_mem zstd dict hmem

/-- The migration keeps the texts of all rows that had no payload, with every sound library,
exactly if these have positive ids and texts that were compressed in one way. -/
theorem migrateArchive_keeps_texts_iff {Headers : Type} (extraction : Extraction Headers)
    (parsers : Parsers Headers) (dict : Dict) (pattern : ℤ → Pattern) (table : LegacyTable) :
    (∀ zstd : Zstd, zstd.Sound → ∀ fuel, table.rows.length < fuel → ∃ archive,
        migrateArchive extraction parsers zstd dict pattern table fuel = some archive ∧
        archive.rows.map LegacyRow.id = table.rows.map LegacyRow.id ∧
        ∀ row ∈ table.rows, hasPayload table.payloads row.id = false →
          loadPayloadFrom zstd dict archive.payloads row.id =
            some ⟨row.request.getD "", row.response.getD "", row.headers.getD ""⟩) ↔
      ∀ row ∈ table.rows, hasPayload table.payloads row.id = false →
        0 < row.id ∧ codecOf dict (pattern row.id).response = codecOf dict (pattern row.id).request ∧
          codecOf dict (pattern row.id).headers = codecOf dict (pattern row.id).request := by
  constructor
  · intro h row hrow hpayload
    have hload : ∀ foreign, loadPayloadFrom (marking foreign) dict (table.payloads ++
        table.converted.map (payloadRow (marking foreign) dict pattern)) row.id =
          some ⟨row.request.getD "", row.response.getD "", row.headers.getD ""⟩ := by
      intro foreign
      obtain ⟨archive, harchive, -, hpayloads⟩ := @migrateArchive_eq Headers extraction parsers
        (marking foreign) dict pattern table _ (Nat.lt_succ_self _)
      obtain ⟨archive', harchive', -, hrows⟩ :=
        h (marking foreign) (marking_sound foreign) _ (Nat.lt_succ_self _)
      obtain rfl : archive = archive' := Option.some.inj (harchive.symm.trans harchive')
      rw [← hpayloads]
      exact hrows row hrow hpayload
    have hpos : 0 < row.id := by
      by_contra hneg
      have hnone := hload []
      rw [loadPayloadFrom_append hpayload,
        loadPayloadFrom_of_not_hasPayload (hasPayload_converted table hneg)] at hnone
      cases hnone
    have htexts := fun foreign ↦
      (loadPayloadFrom_converted table hrow hpayload hpos).symm.trans (hload foreign)
    refine ⟨hpos, ?_, ?_⟩ <;> by_contra hne
    · have hs := htexts (foreignTo (row.response.getD ""))
      simp only [Option.some.injEq, StoredPayload.mk.injEq] at hs
      exact decodeText_ne_of_codecOf_ne (row.response.getD "") _ hne hs.2.1
    · have hs := htexts (foreignTo (row.headers.getD ""))
      simp only [Option.some.injEq, StoredPayload.mk.injEq] at hs
      exact decodeText_ne_of_codecOf_ne (row.headers.getD "") _ hne hs.2.2
  · intro h zstd hzstd fuel hfuel
    obtain ⟨archive, harchive, hids, hpayloads⟩ := @migrateArchive_eq Headers extraction parsers
      zstd dict pattern table fuel hfuel
    refine ⟨archive, harchive, hids, fun row hrow hpayload ↦ ?_⟩
    obtain ⟨hpos, hresponse, hheaders⟩ := h row hrow hpayload
    rw [hpayloads, loadPayloadFrom_converted table hrow hpayload hpos]
    simp only [itemOf, logRequest, recordOf, decodeText_of_codecOf_eq hzstd rfl,
      decodeText_of_codecOf_eq hzstd hresponse, decodeText_of_codecOf_eq hzstd hheaders]

end

def chatTable (id : ℤ) : LegacyTable where
  columns := selectColumns
  rows := [{ chatRow with id }]
  payloads := []
  legacy _ h := h
  ascending := List.pairwise_singleton _ _

theorem row_zero_lost :
    hasPayload (chatTable 0).payloads 0 = false ∧
      ∃ archive, migrateArchive plainExtraction (chatParsers chatBody) strict none
          (fun _ ↦ ⟨⟨true, true⟩, ⟨true, true⟩, ⟨true, true⟩⟩) (chatTable 0) 2 = some archive ∧
        archive.rows.map LegacyRow.id = [0] ∧ archive.rows.map LegacyRow.request = [none] ∧
          "Request" ∉ archive.columns ∧ loadPayloadFrom strict none archive.payloads 0 = none :=
  ⟨rfl, _, rfl, rfl, rfl, by decide, rfl⟩

end QueQiao.Legacy
