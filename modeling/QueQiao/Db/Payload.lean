import QueQiao.Db.Conservation

namespace QueQiao.Audit

open Lib.Transition

abbrev Bytes := List UInt8

def asBytes (s : String) : Bytes := s.toUTF8.data.toList

def fromUtf8 (bytes : Bytes) : Option String := String.fromUTF8? ⟨bytes.toArray⟩

@[simp] theorem fromUtf8_asBytes (s : String) : fromUtf8 (asBytes s) = some s :=
  dif_pos s.isValidUTF8

theorem asBytes_of_fromUtf8 {bytes : Bytes} {s : String} (h : fromUtf8 bytes = some s) :
    asBytes s = bytes := by
  unfold fromUtf8 String.fromUTF8? at h
  split at h
  · cases h
    rfl
  · cases h

/-- The zstd functions in use; whether a compressor succeeds is up to each call. -/
structure Zstd where
  compress : Bytes → Bytes
  compressWith : Bytes → Bytes → Bytes
  decodeAll : Bytes → Option Bytes
  decodeWith : Bytes → Bytes → Option Bytes

structure Zstd.Sound (zstd : Zstd) : Prop where
  plain : ∀ data, zstd.decodeAll (zstd.compress data) = some data
  dictionary : ∀ dict data, zstd.decodeWith dict (zstd.compressWith dict data) = some data

abbrev Dict := Option (String × Bytes)

structure Attempts where
  dictionary : Bool
  plain : Bool
  deriving DecidableEq, Repr

structure Compressed where
  codec : String
  dictId : Option String
  bytes : Bytes
  rawLen : ℤ

def compress (zstd : Zstd) (dict : Dict) (attempts : Attempts) (data : Bytes) : Compressed :=
  let rawLen := (data.length : ℤ)
  match dict, attempts.dictionary with
  | some (id, dict), true => ⟨"zstd-dict", some id, zstd.compressWith dict data, rawLen⟩
  | _, _ =>
    if attempts.plain then ⟨"zstd", none, zstd.compress data, rawLen⟩
    else ⟨"none", none, data, rawLen⟩

def decompress (zstd : Zstd) (dict : Dict) (codec : String) (dictId : Option String)
    (blob : Bytes) : Option Bytes :=
  match codec with
  | "none" => some blob
  | "zstd" => zstd.decodeAll blob
  | "zstd-dict" =>
    match dict with
    | none => none
    | some (id, dict) => if some id ≠ dictId then none else zstd.decodeWith dict blob
  | _ => none

inductive DbValue
  | null
  | integer (value : ℤ)
  | text (value : String)
  | blob (value : Bytes)
  deriving DecidableEq

def optText : Option String → DbValue
  | some value => .text value
  | none => .null

abbrev Row := List DbValue

def Row.getStr (row : Row) (i : ℕ) : Option String :=
  match row[i]? with
  | some (.text value) => some value
  | _ => none

def Row.getOptStr (row : Row) (i : ℕ) : Option (Option String) :=
  match row[i]? with
  | some .null => some none
  | some (.text value) => some (some value)
  | _ => none

def Row.getOptBlob (row : Row) (i : ℕ) : Option (Option Bytes) :=
  match row[i]? with
  | some .null => some none
  | some (.blob value) => some (some value)
  | _ => none

structure Record where
  request : String
  response : String
  headers : String
  deriving DecidableEq, Repr

structure AuditItem where
  record : Record
  request : Compressed
  response : Compressed
  headers : Compressed

/-- How the compressors fare on the three texts of an item. -/
structure Pattern where
  request : Attempts
  response : Attempts
  headers : Attempts
  deriving DecidableEq, Repr

def logRequest (zstd : Zstd) (dict : Dict) (pattern : Pattern) (record : Record) : AuditItem where
  record := record
  request := compress zstd dict pattern.request (asBytes record.request)
  response := compress zstd dict pattern.response (asBytes record.response)
  headers := compress zstd dict pattern.headers (asBytes record.headers)

def payloadCols : List String :=
  ["record_id", "codec", "dict_id", "request", "response", "headers", "request_raw_len",
    "response_raw_len", "headers_raw_len"]

def payloadParams (recordId : ℤ) (request response headers : Compressed) : Row :=
  [.integer recordId, .text request.codec, optText request.dictId, .blob request.bytes,
    .blob response.bytes, .blob headers.bytes, .integer request.rawLen, .integer response.rawLen,
    .integer headers.rawLen]

/-- The table `payloads`: the rows that `build_batch` wrote for the items. -/
def Table.payloads (table : Table AuditItem) : List Row :=
  table.rows.map fun row ↦ payloadParams row.1 row.2.request row.2.response row.2.headers

def Row.column (row : Row) (name : String) : DbValue := row.getD (payloadCols.idxOf name) .null

def selectPayload (payloads : List Row) (recordId : ℤ) : Option Row :=
  (payloads.find? fun row ↦ row.column "record_id" = .integer recordId).map fun row ↦
    ["codec", "dict_id", "request", "response", "headers"].map row.column

structure StoredPayload where
  request : String
  response : String
  headers : String
  deriving DecidableEq, Repr

/-- A blob that cannot be decoded counts as an empty text. -/
def decodeText (zstd : Zstd) (dict : Dict) (codec : String) (dictId : Option String)
    (blob : Bytes) : String :=
  ((decompress zstd dict codec dictId blob).bind fromUtf8).getD ""

def loadPayloadFrom (zstd : Zstd) (dict : Dict) (payloads : List Row) (recordId : ℤ) :
    Option StoredPayload := do
  let row ← selectPayload payloads recordId
  let codec ← row.getStr 0
  let dictId ← row.getOptStr 1
  let decode := fun i ↦
    ((row.getOptBlob i).join.map (decodeText zstd dict codec dictId)).getD ""
  return ⟨decode 2, decode 3, decode 4⟩

theorem find?_payloads {rows : List (ℤ × AuditItem)} (hnodup : (rows.map Prod.fst).Nodup)
    {recordId : ℤ} {item : AuditItem} (h : (recordId, item) ∈ rows) :
    (rows.map fun row ↦ payloadParams row.1 row.2.request row.2.response row.2.headers).find?
        (fun row ↦ row.column "record_id" = .integer recordId) =
      some (payloadParams recordId item.request item.response item.headers) := by
  induction rows with
  | nil => cases h
  | cons row rows ih =>
    rw [List.map_cons, List.nodup_cons] at hnodup
    have hcolumn : (payloadParams row.1 row.2.request row.2.response row.2.headers).column
        "record_id" = .integer row.1 := rfl
    rw [List.map_cons, List.find?_cons, hcolumn]
    rcases List.mem_cons.mp h with rfl | h
    · simp
    · have hne : row.1 ≠ recordId := by
        rintro rfl
        exact hnodup.1 (List.mem_map.mpr ⟨_, h, rfl⟩)
      simp only [DbValue.integer.injEq, hne, decide_false]
      exact ih hnodup.2 h

theorem loadPayloadFrom_of_mem (zstd : Zstd) (dict : Dict) {table : Table AuditItem}
    {recordId : ℤ} {item : AuditItem} (h : (recordId, item) ∈ table.rows) :
    loadPayloadFrom zstd dict table.payloads recordId =
      some ⟨decodeText zstd dict item.request.codec item.request.dictId item.request.bytes,
        decodeText zstd dict item.request.codec item.request.dictId item.response.bytes,
        decodeText zstd dict item.request.codec item.request.dictId item.headers.bytes⟩ := by
  have hrow := find?_payloads table.nodup h
  unfold loadPayloadFrom selectPayload Table.payloads
  rw [hrow]
  cases hdict : item.request.dictId <;> simp [payloadParams, hdict, optText] <;> rfl

/-- The codec that `compress` ends up with. -/
def codecOf (dict : Dict) (attempts : Attempts) : String :=
  if dict.isSome && attempts.dictionary then "zstd-dict"
  else if attempts.plain then "zstd"
  else "none"

section Codec

variable (zstd : Zstd) (dict : Dict) (attempts : Attempts) (data : Bytes)

theorem compress_eq :
    compress zstd dict attempts data =
      match dict, codecOf dict attempts with
      | some (id, dict), "zstd-dict" =>
        ⟨"zstd-dict", some id, zstd.compressWith dict data, data.length⟩
      | _, "zstd" => ⟨"zstd", none, zstd.compress data, data.length⟩
      | _, _ => ⟨"none", none, data, data.length⟩ := by
  obtain ⟨dictionary, plain⟩ := attempts
  cases dict <;> cases dictionary <;> cases plain <;> rfl

variable {zstd dict attempts data}

theorem decodeText_of_codecOf_eq (hzstd : zstd.Sound) {attempts' : Attempts} {data' : Bytes}
    {s : String} (h : codecOf dict attempts' = codecOf dict attempts) :
    decodeText zstd dict (compress zstd dict attempts data').codec
      (compress zstd dict attempts data').dictId
      (compress zstd dict attempts' (asBytes s)).bytes = s := by
  rw [compress_eq, compress_eq, h]
  split
  · simp [decodeText, decompress, hzstd.dictionary]
  · simp [decodeText, decompress, hzstd.plain]
  · simp [decodeText, decompress]

end Codec

/-- The text behind a mark; what does not carry the mark is taken for `foreign`. -/
def unmark (mark : UInt8) (foreign : Bytes) : Bytes → Bytes
  | [] => foreign
  | first :: data => if first = mark then data else foreign

def marking (foreign : Bytes) : Zstd where
  compress data := 1 :: data
  compressWith _ data := 2 :: data
  decodeAll blob := some (unmark 1 foreign blob)
  decodeWith _ blob := some (unmark 2 foreign blob)

theorem marking_sound (foreign : Bytes) : (marking foreign).Sound :=
  ⟨fun _ ↦ rfl, fun _ _ ↦ rfl⟩

def foreignTo (s : String) : Bytes := if s = "" then asBytes "?" else []

theorem foreignTo_ne (s : String) : (fromUtf8 (foreignTo s)).getD "" ≠ s := by
  unfold foreignTo
  split
  · rename_i h
    subst h
    decide
  · rename_i h
    exact fun heq ↦ h (heq.symm.trans rfl)

theorem getD_fromUtf8_ne {bytes : Bytes} {s : String} (hlen : bytes.length ≠ (asBytes s).length)
    (hvalid : s = "" → fromUtf8 bytes ≠ none) : (fromUtf8 bytes).getD "" ≠ s := by
  intro h
  cases hb : fromUtf8 bytes with
  | none =>
    rw [hb] at h
    exact hvalid h.symm hb
  | some s' =>
    rw [hb] at h
    obtain rfl : s' = s := h
    exact hlen (congrArg List.length (asBytes_of_fromUtf8 hb)).symm

theorem unmark_asBytes_ne (mark : UInt8) (s : String) :
    (fromUtf8 (unmark mark (foreignTo s) (asBytes s))).getD "" ≠ s := by
  cases hs : asBytes s with
  | nil => exact foreignTo_ne s
  | cons first data =>
    by_cases hmark : first = mark
    · rw [unmark, if_pos hmark]
      refine getD_fromUtf8_ne ?_ ?_
      · rw [hs, List.length_cons]
        exact Nat.ne_of_lt (Nat.lt_succ_self _)
      · rintro rfl
        cases hs
    · rw [unmark, if_neg hmark]
      exact foreignTo_ne s

theorem marked_asBytes_ne {mark : UInt8} (hmark : mark = 1 ∨ mark = 2) (s : String) :
    (fromUtf8 (mark :: asBytes s)).getD "" ≠ s := by
  refine getD_fromUtf8_ne ?_ ?_
  · rw [List.length_cons]
    omega
  · rintro rfl
    rcases hmark with rfl | rfl <;> decide

theorem codecOf_cases (dict : Dict) (attempts : Attempts) :
    (∃ id bytes, dict = some (id, bytes) ∧ codecOf dict attempts = "zstd-dict") ∨
      codecOf dict attempts = "zstd" ∨ codecOf dict attempts = "none" := by
  obtain ⟨dictionary, plain⟩ := attempts
  cases dict with
  | none => cases plain <;> simp [codecOf]
  | some d =>
    obtain ⟨id, bytes⟩ := d
    cases dictionary <;> cases plain <;> simp [codecOf]

theorem decodeText_ne_of_codecOf_ne {dict : Dict} {attempts attempts' : Attempts} (s : String)
    (data : Bytes) (h : codecOf dict attempts' ≠ codecOf dict attempts) :
    let zstd := marking (foreignTo s)
    decodeText zstd dict (compress zstd dict attempts data).codec
      (compress zstd dict attempts data).dictId
      (compress zstd dict attempts' (asBytes s)).bytes ≠ s := by
  simp only [compress_eq]
  rcases codecOf_cases dict attempts with ⟨id, bytes, rfl, hr⟩ | hr | hr <;> rw [hr] at h ⊢
  · rcases codecOf_cases (some (id, bytes)) attempts' with ⟨_, _, -, hr'⟩ | hr' | hr'
    · exact absurd hr' h
    · rw [hr']
      simpa [decodeText, decompress, marking, unmark] using foreignTo_ne s
    · rw [hr']
      simpa [decodeText, decompress, marking] using unmark_asBytes_ne 2 s
  · rcases codecOf_cases dict attempts' with ⟨id, bytes, rfl, hr'⟩ | hr' | hr'
    · rw [hr']
      simpa [decodeText, decompress, marking, unmark] using foreignTo_ne s
    · exact absurd hr' h
    · rw [hr']
      simpa [decodeText, decompress, marking] using unmark_asBytes_ne 1 s
  · rcases codecOf_cases dict attempts' with ⟨id, bytes, rfl, hr'⟩ | hr' | hr'
    · rw [hr']
      simpa [decodeText, decompress, marking] using marked_asBytes_ne (.inr rfl) s
    · rw [hr']
      simpa [decodeText, decompress, marking] using marked_asBytes_ne (.inl rfl) s
    · exact absurd hr' h

theorem committed_alone (item : AuditItem) :
    ∃ tr w, Path (step oneRow) (start (fun _ ↦ .empty) 0) tr w ∧ (1, item) ∈ (w.files 0).rows := by
  have hrun : (trace (step oneRow) (start (fun _ ↦ .empty) 0)
      [.enqueue item, .recv, .attempt .committed]).map (fun r ↦ (r.2.files 0).rows) =
        some [(1, item)] := by
    rfl
  obtain ⟨⟨tr, w⟩, hr, hrows⟩ := Option.map_eq_some_iff.mp hrun
  refine ⟨tr, w, Path.of_trace hr, ?_⟩
  rw [hrows]
  exact List.mem_singleton_self _

/-- A committed item is loaded as it was logged, with every sound library, exactly if response
and headers end up with the codec of the request. -/
theorem load_returns_texts_iff (dict : Dict) (pattern : Pattern) (record : Record) :
    (∀ zstd : Zstd, zstd.Sound → ∀ cfg files store tr w,
        Path (step cfg) (start files store) tr w → ∀ file recordId,
          (recordId, logRequest zstd dict pattern record) ∈ (w.files file).rows →
            loadPayloadFrom zstd dict (w.files file).payloads recordId =
              some ⟨record.request, record.response, record.headers⟩) ↔
      codecOf dict pattern.response = codecOf dict pattern.request ∧
        codecOf dict pattern.headers = codecOf dict pattern.request := by
  constructor
  · intro h
    have hload := fun foreign ↦
      have ⟨tr, w, hp, hrow⟩ :=
        committed_alone (logRequest (marking foreign) dict pattern record)
      (loadPayloadFrom_of_mem (marking foreign) dict hrow).symm.trans
        (h _ (marking_sound foreign) oneRow _ 0 tr w hp 0 1 hrow)
    constructor <;> by_contra hne
    · have hs := hload (foreignTo record.response)
      simp only [Option.some.injEq, StoredPayload.mk.injEq] at hs
      exact decodeText_ne_of_codecOf_ne record.response _ hne hs.2.1
    · have hs := hload (foreignTo record.headers)
      simp only [Option.some.injEq, StoredPayload.mk.injEq] at hs
      exact decodeText_ne_of_codecOf_ne record.headers _ hne hs.2.2
  · rintro ⟨hresponse, hheaders⟩ zstd hzstd cfg files store tr w - file recordId hrow
    rw [loadPayloadFrom_of_mem zstd dict hrow]
    simp only [logRequest, decodeText_of_codecOf_eq hzstd rfl,
      decodeText_of_codecOf_eq hzstd hresponse, decodeText_of_codecOf_eq hzstd hheaders]

def strict : Zstd where
  compress data := 1 :: data
  compressWith _ data := 2 :: data
  decodeAll blob := if blob.head? = some 1 then some blob.tail else none
  decodeWith _ blob := if blob.head? = some 2 then some blob.tail else none

theorem response_lost :
    strict.Sound ∧
      let pattern : Pattern := ⟨⟨true, true⟩, ⟨false, false⟩, ⟨true, true⟩⟩
      let record : Record := ⟨"hello", "world", "accept: */*"⟩
      ∃ tr w, Path (step oneRow) (start (fun _ ↦ .empty) 0) tr w ∧
        (1, logRequest strict none pattern record) ∈ (w.files 0).rows ∧
        loadPayloadFrom strict none (w.files 0).payloads 1 =
          some ⟨"hello", "", "accept: */*"⟩ := by
  refine ⟨⟨fun _ ↦ rfl, fun _ _ ↦ rfl⟩, ?_⟩
  intro pattern record
  obtain ⟨tr, w, hp, hrow⟩ := committed_alone (logRequest strict none pattern record)
  refine ⟨tr, w, hp, hrow, (loadPayloadFrom_of_mem strict none hrow).trans ?_⟩
  decide +kernel

end QueQiao.Audit
