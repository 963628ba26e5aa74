import QueQiao.Db.MigrateCopy
import QueQiao.Lib.Binary64
import Mathlib.Algebra.GroupWithZero.Nat
import Mathlib.Data.List.Infix

namespace QueQiao.Migrate

open Audit Lib.Keyset Lib.Binary64

def recordNames : List String := "id" :: recordColumns.map Prod.fst ++ ["SearchText"]

def payloadNames : List String := "record_id" :: payloadColumns.map Prod.fst

def valueOf (names : List String) (values : List Value) (name : String) : Value :=
  (((names.zip values).find? (·.1 = name)).map Prod.snd).getD .null

/-- `length`; that of a number is not needed, as neither side can be read then. -/
def sqlLength : Value → ℕ
  | .blob value => value.length
  | .text value => (value.toList.takeWhile (· ≠ '\x00')).length
  | _ => 0

def textOf : Value → String
  | .text value => value
  | _ => ""

def getOptStr : Value → Option Value
  | .null => some .null
  | .text value => some (.text value)
  | _ => none

def getOptBlob : Value → Option Value
  | .null => some .null
  | .blob value => some (.blob value)
  | _ => none

def getOptI64 : Value → Option Value
  | .null => some .null
  | .integer value => some (.integer value)
  | .real bits => some (.integer (toI64 bits))
  | _ => none

/-- The error of a value of another type; the value itself is left out. -/
def unexpected (idx : ℕ) (expected : String) : String :=
  "column " ++ toString idx ++ ": expected " ++ expected

/-- NULL, which a NaN is stored as, comes before numbers, texts and blobs. -/
def sqlRank : Value → ℕ
  | .null => 0
  | .integer _ => 1
  | .real bits => if (ofBits bits).isSome then 1 else 0
  | .text _ => 2
  | .blob _ => 3

def numberOf : Value → Option ℚ
  | .integer value => some value
  | .real bits => ofBits bits
  | _ => none

def sqlLt (a b : Value) : Bool :=
  if sqlRank a = sqlRank b then
    match a, b with
    | .text a, .text b => asBytes a < asBytes b
    | .blob a, .blob b => a < b
    | _, _ => (numberOf a).getD 0 < (numberOf b).getD 0
  else sqlRank a < sqlRank b

/-- The first of the values before which there is none; NULL does not count. -/
def extreme (before : Value → Value → Bool) (values : List Value) : Value :=
  (values.filter (sqlRank · ≠ 0)).foldl
    (fun best value ↦ if best = .null || before value best then value else best) .null

def sqlMin (values : List Value) : Value := extreme sqlLt values

def sqlMax (values : List Value) : Value := extreme (fun a b ↦ sqlLt b a) values

example : sqlMin [.text "x", .null, .integer 5] = .integer 5 ∧
    sqlMax [.text "x", .null, .integer 5] = .text "x" := by decide +kernel

def Source.times (source : Source) : List Value := source.records.map (·.column "TimeMs")

def Target.times (target : Target) : List Value :=
  target.records.rows.map fun row ↦ valueOf recordNames row.2 "TimeMs"

structure Totals where
  records : ℕ
  payloads : ℕ
  minMs : Value
  maxMs : Value
  lengths : ℕ × ℕ × ℕ
  deriving DecidableEq

def sumLengths (payloads : List (String → Value)) (name : String) : ℕ :=
  (payloads.map fun column ↦ sqlLength (column name)).sum

def totals (read : ℕ → Value → Except String Value) (times : List Value)
    (payloads : List (String → Value)) : Except String Totals := do
  let minMs ← read 0 (sqlMin times)
  let maxMs ← read 1 (sqlMax times)
  return {
    records := times.length
    payloads := payloads.length
    minMs := minMs
    maxMs := maxMs
    lengths := (sumLengths payloads "request", sumLengths payloads "response",
      sumLengths payloads "headers") }

/-- sqlx does not give a number of another type as an integer. -/
def Source.totals (failure : String) (source : Source) : Except String Totals :=
  Migrate.totals (fun _ value ↦ (optInt value).elim (.error failure) .ok) source.times
    (source.payloads.map SourceRow.column)

def Target.totals (target : Target) : Except String Totals :=
  Migrate.totals
    (fun idx value ↦ (getOptI64 value).elim (.error (unexpected idx "integer/null")) .ok)
    target.times (target.payloads.rows.map fun row ↦ valueOf payloadNames row.2)

def Target.timeOf (target : Target) (extreme : List Value → Value) : Option ℤ :=
  (getOptI64 (extreme target.times)).bind fun
    | .integer value => some value
    | _ => none

/-- A column, and how it is read in the source and in the target. -/
structure Compared where
  name : String
  source : Value → Option Value
  target : Value → Option Value
  expected : String

def comparedColumns : List Compared :=
  [⟨"codec", optText, getOptStr, "text/null"⟩, ⟨"dict_id", optText, getOptStr, "text/null"⟩,
    ⟨"request", optBlob, getOptBlob, "blob/null"⟩, ⟨"response", optBlob, getOptBlob, "blob/null"⟩,
    ⟨"headers", optBlob, getOptBlob, "blob/null"⟩,
    ⟨"request_raw_len", optInt, getOptI64, "integer/null"⟩,
    ⟨"response_raw_len", optInt, getOptI64, "integer/null"⟩,
    ⟨"headers_raw_len", optInt, getOptI64, "integer/null"⟩]

/-- `failure` is the error of a value that sqlx does not decode. -/
def verifyColumn (failure : String) (row : SourceRow) (values : List Value) (column : Compared) :
    Except String Unit := do
  let src ← (column.source (row.column column.name)).elim (.error failure) .ok
  let dst ← (column.target (valueOf payloadNames values column.name)).elim
    (.error (unexpected (payloadNames.idxOf column.name) column.expected)) .ok
  if src ≠ dst then
    .error ("payload " ++ toString row.id ++ " " ++ column.name ++ " mismatch")

def verifyPayload (failure : String) (target : Target) (row : SourceRow) : Except String Unit :=
  match target.payloads.rows.find? (·.1 = row.id) with
  | none => .error ("payload " ++ toString row.id ++ " missing in target")
  | some copied => comparedColumns.forM (verifyColumn failure row copied.2)

/-- A value as a part of a text; a real number is in none of these columns. -/
def concatBytes : Value → Bytes
  | .null | .real _ => []
  | .integer value => asBytes (toString value)
  | .text value => asBytes value
  | .blob value => value

def validSearchText (values : List Value) : Bool :=
  let column (name : String) : Bytes := concatBytes (valueOf recordNames values name)
  match valueOf recordNames values "SearchText" with
  | .text value =>
    asBytes value = column "Prompt" ++ 10 :: column "RequestTail" ++ 10 :: column "Answer"
  | _ => false

def ftsTerms : List String := ["hello", "error", "model", "request", "function"]

/-- The records that hold a term; `lower` knows ASCII letters only. -/
def scanned (target : Target) (term : String) : ℕ :=
  target.records.rows.countP fun row ↦
    term.toList <:+: (textOf (valueOf recordNames row.2 "SearchText")).toLower.toList

variable (indexed : Target → String → ℕ)

def verifyTerm (target : Target) (term : String) : Except String Unit :=
  if scanned target term = indexed target term then .ok ()
  else .error ("verification failed: FTS '" ++ term ++ "' scan=" ++ toString (scanned target term) ++
    " index=" ++ toString (indexed target term))

/-- `indexed` counts the records that the full-text index finds. -/
def verify (failure : String) (source : Source) (target : Target) : Except String Unit := do
  let src ← source.totals failure
  let dst ← target.totals
  if src ≠ dst then
    .error "verification failed: totals differ"
  source.payloads.forM (verifyPayload failure target)
  let invalid := target.records.rows.countP fun row ↦ !validSearchText row.2
  if invalid ≠ 0 then
    .error ("verification failed: " ++ toString invalid ++ " records have invalid SearchText")
  ftsTerms.forM (verifyTerm indexed target)

variable (source : Source)

/-- The loop of `run_copy`, with the number of rows that it has copied. -/
def copyRows : ℕ → Target → Run → Option (Target × ℤ)
  | 0, _, _ => none
  | fuel + 1, target, run =>
    match (nextRows source run).getLast? with
    | none => some (target, run.migrated)
    | some row =>
      (insertBatch source target run row.id).bind fun target' ↦
        let run' := advance source run row.id
        if run'.options.limit ≤ run'.migrated then some (target', run'.migrated)
        else copyRows fuel target' run'

def automatic : MigrateOptions := ⟨200, 9223372036854775807, false, by decide⟩

/-- A partial copy is not verified; `failure` is the error of a value that sqlx does not decode. -/
def runCopy (failure : String) : Except String Target :=
  match copyRows source (source.records.length + 1) ⟨.empty, .empty⟩
      (firstRun ⟨.empty, .empty⟩ automatic) with
  | none => .error failure
  | some (target, migrated) =>
    if migrated = source.records.length then (verify indexed failure source target).map fun _ ↦ target
    else .ok target

/-- Every row of the source is in the target, as it is inserted. -/
structure Complete (target : Target) : Prop where
  records : keyed recordParams source.records = some target.records.rows
  payloads : keyed payloadParams source.payloads = some target.payloads.rows

variable {indexed source} {params : SourceRow → Option (List Value)}

theorem length_keyed {rows : List SourceRow} {new : List (ℤ × List Value)}
    (h : keyed params rows = some new) : new.length = rows.length := by
  have hids := congrArg List.length (ids_of_keyed h)
  rwa [List.length_map, List.length_map] at hids

theorem upTo_eq_self {rows : List SourceRow} {cursor : Option ℤ}
    (h : rows.length ≤ (upTo SourceRow.id cursor rows).length) :
    upTo SourceRow.id cursor rows = rows :=
  List.filter_sublist.eq_of_length_le h

theorem copyRows_spec {fuel : ℕ} {target target' : Target} {run : Run} {migrated : ℤ}
    (hcopied : Copied source target) (hrun : run.lastId = targetMaxId target)
    (hcount : run.migrated = target.records.rows.length)
    (h : copyRows source fuel target run = some (target', migrated)) :
    Copied source target' ∧ migrated = target'.records.rows.length ∧
      (migrated = source.records.length ∨ run.options.limit ≤ migrated) := by
  induction fuel generalizing target run with
  | zero => cases h
  | succ fuel ih =>
    rw [copyRows] at h
    cases hlast : (nextRows source run).getLast? with
    | none =>
      rw [hlast] at h
      cases h
      refine ⟨hcopied, hcount, .inl ?_⟩
      have hafter := nextRows_eq_nil (List.getLast?_eq_none_iff.mp hlast)
      have hall := upTo_append_after source.ascending_records run.lastId
      rw [hafter, List.append_nil, hrun] at hall
      rw [hcount, length_keyed hcopied.records, hall]
    | some row =>
      rw [hlast] at h
      obtain ⟨next, hinsert, h⟩ := Option.bind_eq_some_iff.mp h
      obtain ⟨hcopied', hmax⟩ := copied_insertBatch hcopied (.inr hrun) hlast hinsert
      have hrows : (advance source run row.id).migrated = next.records.rows.length := by
        obtain ⟨new, hnew, hrest⟩ := Option.bind_eq_some_iff.mp hinsert
        obtain ⟨records, hrecords, hrest⟩ := Option.bind_eq_some_iff.mp hrest
        obtain ⟨newPayloads, -, hrest⟩ := Option.bind_eq_some_iff.mp hrest
        obtain ⟨payloads, -, hrest⟩ := Option.bind_eq_some_iff.mp hrest
        cases hrest
        have hnewlength := length_keyed hnew
        change run.migrated + (nextRows source run).length = _
        rw [Table.rows_of_insertAll hrecords, List.length_append, hcount]
        omega
      dsimp only at h
      split_ifs at h with hlimit
      · cases h
        exact ⟨hcopied', hrows, .inr hlimit⟩
      · exact @ih next (advance source run row.id) hcopied' hmax.symm hrows h

theorem bind_eq_ok_iff {α β ε : Type} {x : Except ε α} {f : α → Except ε β} {b : β} :
    (x >>= f) = .ok b ↔ ∃ a, x = .ok a ∧ f a = .ok b := by
  cases x with
  | error e => exact iff_of_false (fun h ↦ by cases h) fun ⟨a, h, _⟩ ↦ by cases h
  | ok a =>
    constructor
    · intro h
      exact ⟨a, rfl, h⟩
    · rintro ⟨a', h, hf⟩
      cases h
      exact hf

theorem error_bind {α β ε : Type} (e : ε) (f : α → Except ε β) :
    (Except.error e >>= f) = .error e :=
  rfl

theorem check_eq_ok_iff {β ε : Type} {p : Prop} [Decidable p] {e : ε} {x : Except ε β} {b : β} :
    (if p then Except.error e else x) = .ok b ↔ ¬p ∧ x = .ok b := by
  by_cases h : p
  · rw [if_pos h]
    exact iff_of_false (fun hok ↦ by cases hok) fun hx ↦ hx.1 h
  · rw [if_neg h, and_iff_right h]

theorem totals_eq_ok_iff {read : ℕ → Value → Except String Value} {times : List Value}
    {payloads : List (String → Value)} {t : Totals} : totals read times payloads = .ok t ↔
      (t.records = times.length ∧ t.payloads = payloads.length) ∧
        (read 0 (sqlMin times) = .ok t.minMs ∧ read 1 (sqlMax times) = .ok t.maxMs) ∧
          t.lengths = (sumLengths payloads "request", sumLengths payloads "response",
            sumLengths payloads "headers") := by
  obtain ⟨records, count, minMs, maxMs, lengths⟩ := t
  simp only [totals, bind_eq_ok_iff]
  constructor
  · rintro ⟨first, hmin, last, hmax, h⟩
    cases h
    exact ⟨⟨rfl, rfl⟩, ⟨hmin, hmax⟩, rfl⟩
  · rintro ⟨⟨hrecords, hcount⟩, ⟨hmin, hmax⟩, hlengths⟩
    rw [hrecords, hcount, hlengths]
    exact ⟨minMs, hmin, maxMs, hmax, rfl⟩

theorem verify_eq_ok_iff {failure : String} {target : Target} :
    verify indexed failure source target = .ok () ↔
      (∃ t, source.totals failure = .ok t ∧ target.totals = .ok t) ∧
        source.payloads.forM (verifyPayload failure target) = .ok () ∧
          (target.records.rows.countP fun row ↦ !validSearchText row.2) = 0 ∧
            ftsTerms.forM (verifyTerm indexed target) = .ok () := by
  simp only [verify, error_bind, bind_eq_ok_iff, check_eq_ok_iff, not_not]
  constructor
  · rintro ⟨src, hsrc, dst, hdst, rfl, u, hpayloads, hinvalid, hterms⟩
    exact ⟨⟨src, hsrc, hdst⟩, hpayloads, hinvalid, hterms⟩
  · rintro ⟨⟨t, hsrc, hdst⟩, hpayloads, hinvalid, hterms⟩
    exact ⟨t, hsrc, t, hdst, rfl, (), hpayloads, hinvalid, hterms⟩

theorem length_payloads_of_verify {failure : String} {target : Target}
    (h : verify indexed failure source target = .ok ()) :
    target.payloads.rows.length = source.payloads.length := by
  obtain ⟨⟨t, hsrc, hdst⟩, -⟩ := verify_eq_ok_iff.mp h
  have hpayloads := (totals_eq_ok_iff.mp hsrc).1.2
  have hpayloads' := (totals_eq_ok_iff.mp hdst).1.2
  rw [List.length_map] at hpayloads hpayloads'
  exact hpayloads'.symm.trans hpayloads

theorem runCopy_complete {failure : String} {target : Target}
    (hcount : source.records.length ≤ 9223372036854775807)
    (h : runCopy indexed source failure = .ok target) : Complete source target := by
  rw [runCopy] at h
  cases hrows : copyRows source (source.records.length + 1) ⟨.empty, .empty⟩
      (firstRun ⟨.empty, .empty⟩ automatic) with
  | none =>
    rw [hrows] at h
    cases h
  | some copied =>
    obtain ⟨copy, migrated⟩ := copied
    have hempty : Copied source ⟨.empty, .empty⟩ := by
      have hnone : targetMaxId ⟨.empty, .empty⟩ = none := rfl
      refine ⟨?_, ?_⟩ <;>
      · rw [hnone, upTo_none]
        rfl
    obtain ⟨hcopied, hmigrated, hend⟩ := copyRows_spec hempty rfl rfl hrows
    have hlength := length_keyed hcopied.records
    have hle : (upTo SourceRow.id (targetMaxId copy) source.records).length ≤
      source.records.length := List.length_filter_le _ _
    have hall : migrated = source.records.length := by
      rcases hend with hend | hlimit
      · exact hend
      · change (9223372036854775807 : ℤ) ≤ migrated at hlimit
        omega
    rw [hrows] at h
    dsimp only at h
    rw [if_pos hall] at h
    cases hverify : verify indexed failure source copy with
    | error message =>
      rw [hverify] at h
      cases h
    | ok =>
      rw [hverify] at h
      cases h
      have hpayloads := length_payloads_of_verify hverify
      have hrecords : upTo SourceRow.id (targetMaxId copy) source.records = source.records :=
        upTo_eq_self (by omega)
      have hpayloads' : upTo SourceRow.id (targetMaxId copy) source.payloads = source.payloads := by
        have hlength' := length_keyed hcopied.payloads
        exact upTo_eq_self (by omega)
      refine ⟨?_, ?_⟩
      · rw [← hcopied.records, hrecords]
      · rw [← hcopied.payloads, hpayloads']

end QueQiao.Migrate
