import QueQiao.Db.LegacyMigration
import QueQiao.Db.MigrateCopy

namespace QueQiao.Legacy

open Audit Lib.Keyset Migrate

/-- A database with a table `records` of any columns; columns that it lacks hold nothing. -/
structure LegacyDatabase where
  columns : List String
  records : List SourceRow
  payloads : List SourceRow
  ascending_records : Ascending SourceRow.id records
  ascending_payloads : Ascending SourceRow.id payloads
  count_le : records.length ≤ 9223372036854775807

def newColumns : List String :=
  ["TimeMs", "Method", "Endpoint", "Backend", "SessionId", "ParentSessionId", "RequestId",
    "SessionAffinity", "UserAgent", "ClientName", "ClientVersion", "ApiKey", "Status", "Error",
    "RetryCount", "FinishReason", "LatencyMs", "TtftMs", "UpstreamMs", "StreamMs", "RequestBytes",
    "ResponseBytes", "PromptBytes", "RequestTailBytes", "AnswerBytes", "MessageCount",
    "SystemCount", "ToolCount", "AssistantCount", "ToolResultCount", "ImageCount", "Prompt",
    "RequestTail", "Answer", "ToolNames", "payload_id"]

/-- `try_get` of an optional text; what is of another type counts as missing. -/
def tryText : Value → Option String
  | .text value => some value
  | _ => none

def tryInt : Value → Option ℤ
  | .integer value => some value
  | _ => none

namespace LegacyDatabase

variable (db : LegacyDatabase)

def stored (row : SourceRow) (name : String) : Value :=
  if name ∈ db.columns then row.column name else .null

def legacyRow (row : SourceRow) : LegacyRow where
  id := row.id
  time := tryText (db.stored row "Time")
  typeLabel := tryText (db.stored row "Type")
  headers := tryText (db.stored row "Headers")
  request := tryText (db.stored row "Request")
  response := tryText (db.stored row "Response")
  tool := tryInt (db.stored row "Tool")
  multimodal := tryInt (db.stored row "Multimodal")
  timeMs := tryInt (db.stored row "TimeMs")
  prompt := tryText (db.stored row "Prompt")
  requestTail := tryText (db.stored row "RequestTail")
  answer := tryText (db.stored row "Answer")

/-- The table that the loop works on; of a payload it reads the `record_id` only. -/
def table (h : ∀ c ∈ selectColumns, c ∈ db.columns) : LegacyTable where
  columns := db.columns
  rows := db.records.map db.legacyRow
  payloads := db.payloads.map fun row ↦ [.integer row.id]
  legacy := h
  ascending := List.pairwise_map.mpr db.ascending_records

end LegacyDatabase

def ofText (text : Option String) : Value := text.elim .null .text

def ofFlag (flag : Bool) : Value := .integer (if flag then 1 else 0)

/-- The columns that the `UPDATE` of a row sets. -/
def updated (row : LegacyRow) (columns : Columns) : List (String × Value) :=
  [("TimeMs", row.timeMs.elim .null .integer), ("Prompt", ofText columns.prompt),
    ("RequestTail", ofText columns.requestTail), ("Answer", ofText columns.answer),
    ("ToolNames", .text columns.toolNames), ("FinishReason", ofText columns.finishReason),
    ("Endpoint", ofText columns.endpoint), ("UserAgent", ofText columns.userAgent),
    ("ClientName", ofText columns.clientName), ("ClientVersion", ofText columns.clientVersion),
    ("ApiKey", ofText columns.apiKey), ("SessionId", ofText columns.sessionId),
    ("ParentSessionId", ofText columns.parentSessionId), ("RequestId", ofText columns.requestId),
    ("SessionAffinity", ofText columns.sessionAffinity), ("Tool", ofFlag columns.tool),
    ("Multimodal", ofFlag columns.multimodal), ("RequestBytes", .integer columns.requestBytes),
    ("ResponseBytes", .integer columns.responseBytes), ("PromptBytes", .integer columns.promptBytes),
    ("RequestTailBytes", .integer columns.requestTailBytes),
    ("AnswerBytes", .integer columns.answerBytes), ("MessageCount", .integer columns.messageCount),
    ("SystemCount", .integer columns.systemCount), ("ToolCount", .integer columns.toolCount),
    ("AssistantCount", .integer columns.assistantCount),
    ("ToolResultCount", .integer columns.toolResultCount),
    ("ImageCount", .integer columns.imageCount), ("payload_id", .integer row.id)]

/-- Those that `COALESCE` leaves as they are. -/
def coalesced : List String := ["TimeMs", "Prompt", "RequestTail", "Answer"]

def archivedColumn (stored : String → Value) (row : LegacyRow) (name : String) : Value :=
  match row.written with
  | none => stored name
  | some columns =>
    if name ∈ coalesced ∧ stored name ≠ .null then stored name
    else ((updated row columns).lookup name).getD (stored name)

def valueOfDb : DbValue → Value
  | .null => .null
  | .integer value => .integer value
  | .text value => .text value
  | .blob value => .blob value

def recordIdOf (row : Row) : ℤ :=
  match row.column "record_id" with
  | .integer id => id
  | _ => 0

namespace LegacyDatabase

variable (db : LegacyDatabase)

def archivedRecord (row : SourceRow) (converted : LegacyRow) : SourceRow :=
  ⟨row.id, archivedColumn (db.stored row) converted⟩

def archivedPayload (row : Row) : SourceRow :=
  (db.payloads.find? (·.id = recordIdOf row)).getD
    ⟨recordIdOf row, fun name ↦ valueOfDb (row.column name)⟩

theorem id_archivedRecord (row : SourceRow) (converted : LegacyRow) :
    (db.archivedRecord row converted).id = row.id := rfl

theorem id_archivedPayload (row : Row) : (db.archivedPayload row).id = recordIdOf row := by
  rw [archivedPayload]
  cases hfind : db.payloads.find? (·.id = recordIdOf row) with
  | none => rfl
  | some stored =>
    have hid : stored.id = recordIdOf row := by simpa using List.find?_some hfind
    exact hid

end LegacyDatabase

structure Conversion (Headers : Type) where
  extraction : Extraction Headers
  parsers : Parsers Headers
  zstd : Zstd
  dict : Dict
  pattern : ℤ → Pattern

namespace Conversion

variable {Headers : Type} (conversion : Conversion Headers) (db : LegacyDatabase)

/-- What the loop leaves; without a column `Request` there is none. -/
def archive : Except String Archive :=
  if "Request" ∉ db.columns then
    .ok ⟨db.columns, db.records.map db.legacyRow, db.payloads.map fun row ↦ [.integer row.id]⟩
  else if h : ∀ c ∈ selectColumns, c ∈ db.columns then
    -- the loop ends within as many rounds as there are rows
    (migrateArchive conversion.extraction conversion.parsers conversion.zstd conversion.dict
      conversion.pattern (db.table h) (db.records.length + 1)).elim (.error "") .ok
  else .error "no such column"

variable {conversion db}

theorem nodup_payloads (h : ∀ c ∈ selectColumns, c ∈ db.columns) :
    (((db.table h).payloads ++ (db.table h).converted.map
      (payloadRow conversion.zstd conversion.dict conversion.pattern)).map recordIdOf).Nodup := by
  have hold : (db.table h).payloads.map recordIdOf = db.payloads.map SourceRow.id := List.map_map
  have hnew : ((db.table h).converted.map
        (payloadRow conversion.zstd conversion.dict conversion.pattern)).map recordIdOf =
      (db.table h).converted.map LegacyRow.id := List.map_map
  rw [List.map_append, hold, hnew, List.nodup_append']
  refine ⟨db.ascending_payloads.nodup_keys,
    (ascending_filter (ascending_filter (db.table h).ascending _) _).nodup_keys, ?_⟩
  -- the loop skips the rows that have a payload
  intro id hid hconverted
  obtain ⟨payload, hpayload, rfl⟩ := List.mem_map.mp hid
  obtain ⟨row, hrow, heq⟩ := List.mem_map.mp hconverted
  have hnone : hasPayload (db.table h).payloads row.id = false := by
    simpa using (List.mem_filter.mp hrow).2
  have hmem : [DbValue.integer payload.id] ∈ (db.table h).payloads :=
    List.mem_map.mpr ⟨payload, hpayload, rfl⟩
  refine column_eq_of_hasPayload hnone hmem ?_
  rw [heq]
  rfl

theorem archive_of_columns (hrequest : "Request" ∈ db.columns)
    (h : ∀ c ∈ selectColumns, c ∈ db.columns) : ∃ archive, conversion.archive db = .ok archive ∧
      archive.rows.length = db.records.length ∧
        (archive.payloads.map recordIdOf).Nodup := by
  have hfuel : (db.table h).rows.length < db.records.length + 1 := by
    rw [LegacyDatabase.table, List.length_map]
    exact Nat.lt_succ_self _
  obtain ⟨left, hleft, hids, hpayloads⟩ := @migrateArchive_eq Headers conversion.extraction
    conversion.parsers conversion.zstd conversion.dict conversion.pattern (db.table h) _ hfuel
  refine ⟨left, ?_, ?_, ?_⟩
  · rw [archive, if_neg (not_not.mpr hrequest), dif_pos h, hleft]
    rfl
  · have hlength := congrArg List.length hids
    rwa [List.length_map, List.length_map, LegacyDatabase.table, List.length_map] at hlength
  · rw [hpayloads]
    exact nodup_payloads h

theorem archive_spec {left : Archive} (h : conversion.archive db = .ok left) :
    left.rows.length = db.records.length ∧ (left.payloads.map recordIdOf).Nodup := by
  by_cases hrequest : "Request" ∈ db.columns
  · by_cases hselect : ∀ c ∈ selectColumns, c ∈ db.columns
    · obtain ⟨left', hleft, hspec⟩ := @archive_of_columns _ conversion _ hrequest hselect
      obtain rfl : left' = left := Except.ok.inj (hleft.symm.trans h)
      exact hspec
    · rw [archive, if_neg (not_not.mpr hrequest), dif_neg hselect] at h
      cases h
  · rw [archive, if_pos hrequest] at h
    cases h
    refine ⟨List.length_map _, ?_⟩
    have hids : (db.payloads.map fun row ↦ [DbValue.integer row.id]).map recordIdOf =
        db.payloads.map SourceRow.id := List.map_map
    rw [hids]
    exact db.ascending_payloads.nodup_keys

def sourceOf (db : LegacyDatabase) (left : Archive) (h : (left.payloads.map recordIdOf).Nodup) :
    Source where
  records := List.zipWith db.archivedRecord db.records left.rows
  payloads := (left.payloads.map db.archivedPayload).insertionSort (·.id ≤ ·.id)
  ascending_records := ascending_zipWith db.ascending_records db.id_archivedRecord _
  ascending_payloads := by
    have hids : SourceRow.id ∘ db.archivedPayload = recordIdOf := funext db.id_archivedPayload
    refine ascending_insertionSort ?_
    rw [List.map_map, hids]
    exact h

theorem length_records_sourceOf (left : Archive) (h : (left.payloads.map recordIdOf).Nodup) :
    (sourceOf db left h).records.length ≤ 9223372036854775807 := by
  rw [sourceOf, List.length_zipWith]
  exact (Nat.min_le_left _ _).trans db.count_le

def missingColumn (columns : List String) : Option String :=
  (recordColumns.map Prod.fst).find? (· ∉ columns ++ newColumns)

variable (conversion) in
/-- `migrate_archive`, with the source that it leaves; where that lacks a column, it is the copy
that fails. -/
def migrateArchive (db : LegacyDatabase) :
    Except String {source : Source // source.records.length ≤ 9223372036854775807} :=
  match h : conversion.archive db, missingColumn db.columns with
  | .ok left, none => .ok ⟨sourceOf db left (archive_spec h).2, length_records_sourceOf _ _⟩
  | .ok _, some name => .error ("no such column: " ++ name)
  | .error text, _ => .error text

theorem ids_migrateArchive
    {source : {source : Source // source.records.length ≤ 9223372036854775807}}
    (h : conversion.migrateArchive db = .ok source) :
    source.1.records.map SourceRow.id = db.records.map SourceRow.id := by
  rw [migrateArchive] at h
  split at h
  · rename_i left harchive hcolumns
    cases h
    have hlength := (archive_spec harchive).1
    have hids : (List.zipWith db.archivedRecord db.records left.rows).map SourceRow.id =
          (db.records.map SourceRow.id).take left.rows.length :=
      keys_zipWith db.id_archivedRecord _ _
    rw [hlength, List.take_of_length_le (List.length_map _).le] at hids
    exact hids
  · cases h
  · cases h

theorem archive_ok_iff : (∃ left, conversion.archive db = .ok left) ↔
    ("Request" ∈ db.columns → ∀ c ∈ selectColumns, c ∈ db.columns) := by
  constructor
  · rintro ⟨left, h⟩ hrequest
    by_contra hselect
    rw [archive, if_neg (not_not.mpr hrequest), dif_neg hselect] at h
    cases h
  · intro hselect
    by_cases hrequest : "Request" ∈ db.columns
    · obtain ⟨left, hleft, -⟩ := @archive_of_columns _ conversion _ hrequest (hselect hrequest)
      exact ⟨left, hleft⟩
    · exact ⟨_, by rw [archive, if_pos hrequest]⟩

theorem migrateArchive_ok_iff : (∃ source, conversion.migrateArchive db = .ok source) ↔
    ("Request" ∈ db.columns → ∀ c ∈ selectColumns, c ∈ db.columns) ∧
      missingColumn db.columns = none := by
  rw [← @archive_ok_iff _ conversion]
  constructor
  · rintro ⟨source, h⟩
    rw [migrateArchive] at h
    split at h
    · rename_i left harchive hcolumns
      exact ⟨⟨left, harchive⟩, hcolumns⟩
    · cases h
    · cases h
  · rintro ⟨⟨left, hleft⟩, hcolumns⟩
    refine ⟨⟨sourceOf db left (archive_spec hleft).2, length_records_sourceOf _ _⟩, ?_⟩
    rw [migrateArchive]
    split
    · rename_i left' harchive _
      obtain rfl : left = left' := Except.ok.inj (hleft.symm.trans harchive)
      rfl
    · rename_i name hname
      cases hcolumns.symm.trans hname
    · rename_i text harchive
      cases hleft.symm.trans harchive

end Conversion

end QueQiao.Legacy
