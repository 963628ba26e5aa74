import Mathlib.Algebra.BigOperators.Group.List.Basic
import Mathlib.Algebra.Order.Field.Rat
import Mathlib.Algebra.Order.Ring.Rat
import Mathlib.Data.Finset.Lattice.Lemmas
import Mathlib.Data.List.Induction
import Mathlib.Data.NNRat.Defs
import Mathlib.Data.Rat.Floor
import QueQiao.Lib.Binary64

namespace QueQiao.Aggregate

open Lib
open Lib.Binary64 (FloatSum SumsTo sumsTo_sum)

structure Record where
  timeMs : Option ℤ
  model : Option String := none
  apiKey : Option String := none
  ip : Option String := none
  type : Option String := none
  backend : Option String := none
  clientName : Option String := none
  status : Option ℤ := none
  promptTokens : Option ℤ := none
  completionTokens : Option ℤ := none
  totalTokens : Option ℤ := none
  latencyMs : Option ℚ := none
  ttftMs : Option ℚ := none
  deriving DecidableEq, Repr

/-- Counters are exact and unbounded, and a sum of floats is the values that are added, whatever the
rounding makes of them. `latency_max` starts at zero and only grows. -/
@[ext] structure Acc where
  rowsAll : ℕ := 0
  counted : ℕ := 0
  success : ℕ := 0
  errors : ℕ := 0
  promptTokens : ℤ := 0
  completionTokens : ℤ := 0
  totalTokens : ℤ := 0
  latencySum : FloatSum := 0
  latencyCount : ℕ := 0
  latencyMax : ℚ≥0 := 0
  ttftSum : FloatSum := 0
  ttftCount : ℕ := 0
  deriving DecidableEq

namespace Acc

def add (a other : Acc) : Acc where
  rowsAll := a.rowsAll + other.rowsAll
  counted := a.counted + other.counted
  success := a.success + other.success
  errors := a.errors + other.errors
  promptTokens := a.promptTokens + other.promptTokens
  completionTokens := a.completionTokens + other.completionTokens
  totalTokens := a.totalTokens + other.totalTokens
  latencySum := a.latencySum + other.latencySum
  latencyCount := a.latencyCount + other.latencyCount
  latencyMax := max a.latencyMax other.latencyMax
  ttftSum := a.ttftSum + other.ttftSum
  ttftCount := a.ttftCount + other.ttftCount

instance : Zero Acc := ⟨{}⟩
instance : Add Acc := ⟨add⟩

instance : AddMonoid Acc where
  add_assoc a b c := by
    refine Acc.ext ?_ ?_ ?_ ?_ ?_ ?_ ?_ ?_ ?_ ?_ ?_ ?_ <;>
      first
      | exact add_assoc _ _ _
      | exact max_assoc _ _ _
  zero_add a := by
    refine Acc.ext ?_ ?_ ?_ ?_ ?_ ?_ ?_ ?_ ?_ ?_ ?_ ?_ <;>
      first
      | exact zero_add _
      | exact max_eq_right zero_le
  add_zero a := by
    refine Acc.ext ?_ ?_ ?_ ?_ ?_ ?_ ?_ ?_ ?_ ?_ ?_ ?_ <;>
      first
      | exact add_zero _
      | exact max_eq_left zero_le
  nsmul := nsmulRec

def observe (r : Record) (a : Acc) : Acc where
  rowsAll := a.rowsAll + 1
  counted := a.counted + if r.status.any (200 ≤ ·) then 1 else 0
  success := a.success + if r.status.any (fun s ↦ 200 ≤ s && s < 400) then 1 else 0
  errors := a.errors + if r.status.any (400 ≤ ·) then 1 else 0
  promptTokens := a.promptTokens + r.promptTokens.getD 0
  completionTokens := a.completionTokens + r.completionTokens.getD 0
  totalTokens := a.totalTokens + r.totalTokens.getD 0
  latencySum := a.latencySum + .of r.latencyMs
  latencyCount := a.latencyCount + if r.latencyMs.isSome then 1 else 0
  latencyMax := max a.latencyMax (r.latencyMs.getD 0).toNNRat
  ttftSum := a.ttftSum + .of r.ttftMs
  ttftCount := a.ttftCount + if r.ttftMs.isSome then 1 else 0

theorem observe_eq_add (r : Record) (a : Acc) : a.observe r = a + observe r 0 := by
  refine Acc.ext ?_ ?_ ?_ ?_ ?_ ?_ ?_ ?_ ?_ ?_ ?_ ?_
  case refine_10 => exact congrArg (max a.latencyMax) (max_eq_right zero_le).symm
  all_goals exact congrArg (_ + ·) (zero_add _).symm

end Acc

inductive Dim
  | model
  | apikey
  | ip
  | type
  | backend
  | client
  | status
  deriving DecidableEq, Repr

inductive HistKind
  | latency
  | ttft
  deriving DecidableEq, Repr

def histBucketMs : ℕ := 50
def histCapMs : ℕ := 60000
def buildBatch : ℕ := 5000

def normalizeDim : Option String → String
  | some value => if value = "" then "Unknown" else value
  | none => "Unknown"

namespace Record

def raw (r : Record) : Dim → Option String
  | .model => r.model
  | .apikey => r.apiKey
  | .ip => r.ip
  | .type => r.type
  | .backend => r.backend
  | .client => r.clientName
  | .status => none

def dimValue (r : Record) : Dim → String
  | .status => (r.status.map toString).getD "Unknown"
  | dim => normalizeDim (r.raw dim)

def hasDistinct (r : Record) (dim : Dim) (value : String) : Bool :=
  (dim = .model || dim = .ip) && r.raw dim == some value

def histogramBucket (value : Option ℚ) : Option ℕ :=
  value.map fun v ↦ (⌊max 0 (min v histCapMs) / histBucketMs⌋).toNat

def bucket (r : Record) : HistKind → Option ℕ
  | .latency => histogramBucket r.latencyMs
  | .ttft => histogramBucket r.ttftMs

end Record

/-- The day tables of a shard. A row that does not exist reads as zero, as in the code, which
writes no zero rows; `days` are those with a row in `day_agg`. -/
@[ext] structure DayTables where
  days : Finset ℤ
  dayAgg : ℤ → Acc
  dayDim : ℤ → Dim → String → Acc
  dayDistinct : ℤ → Dim → String → Bool
  dayHist : ℤ → HistKind → ℕ → ℕ

namespace DayTables

def add (t other : DayTables) : DayTables where
  days := t.days ∪ other.days
  dayAgg := fun day ↦ t.dayAgg day + other.dayAgg day
  dayDim := fun day dim value ↦ t.dayDim day dim value + other.dayDim day dim value
  dayDistinct := fun day dim value ↦ t.dayDistinct day dim value || other.dayDistinct day dim value
  dayHist := fun day kind bucket ↦ t.dayHist day kind bucket + other.dayHist day kind bucket

instance : Zero DayTables := ⟨⟨∅, fun _ ↦ 0, fun _ _ _ ↦ 0, fun _ _ _ ↦ false, fun _ _ _ ↦ 0⟩⟩
instance : Add DayTables := ⟨add⟩

instance : AddMonoid DayTables where
  add_assoc a b c := by
    refine DayTables.ext ?_ ?_ ?_ ?_ ?_
    · exact Finset.union_assoc _ _ _
    · exact funext fun day ↦ add_assoc _ _ _
    · exact funext fun day ↦ funext fun dim ↦ funext fun value ↦ add_assoc _ _ _
    · exact funext fun day ↦ funext fun dim ↦ funext fun value ↦ Bool.or_assoc _ _ _
    · exact funext fun day ↦ funext fun kind ↦ funext fun bucket ↦ add_assoc _ _ _
  zero_add a := by
    refine DayTables.ext ?_ ?_ ?_ ?_ ?_
    · exact Finset.empty_union _
    · exact funext fun day ↦ zero_add _
    · exact funext fun day ↦ funext fun dim ↦ funext fun value ↦ zero_add _
    · exact funext fun day ↦ funext fun dim ↦ funext fun value ↦ Bool.false_or _
    · exact funext fun day ↦ funext fun kind ↦ funext fun bucket ↦ zero_add _
  add_zero a := by
    refine DayTables.ext ?_ ?_ ?_ ?_ ?_
    · exact Finset.union_empty _
    · exact funext fun day ↦ add_zero _
    · exact funext fun day ↦ funext fun dim ↦ funext fun value ↦ add_zero _
    · exact funext fun day ↦ funext fun dim ↦ funext fun value ↦ Bool.or_false _
    · exact funext fun day ↦ funext fun kind ↦ funext fun bucket ↦ add_zero _
  nsmul := nsmulRec

def observe (day : ℤ) (r : Record) (t : DayTables) : DayTables where
  days := insert day t.days
  dayAgg := fun d ↦ if d = day then (t.dayAgg d).observe r else t.dayAgg d
  dayDim := fun d dim value ↦
    if d = day ∧ value = r.dimValue dim then (t.dayDim d dim value).observe r
    else t.dayDim d dim value
  dayDistinct := fun d dim value ↦
    t.dayDistinct d dim value || (d == day && r.hasDistinct dim value)
  dayHist := fun d kind bucket ↦
    t.dayHist d kind bucket + if d = day ∧ r.bucket kind = some bucket then 1 else 0

theorem observe_eq_add (day : ℤ) (r : Record) (t : DayTables) :
    t.observe day r = t + observe day r 0 := by
  refine DayTables.ext ?_ ?_ ?_ ?_ ?_
  · change insert day t.days = t.days ∪ insert day ∅
    rw [Finset.union_insert, Finset.union_empty]
  · funext d
    change (if d = day then (t.dayAgg d).observe r else t.dayAgg d) =
      t.dayAgg d + if d = day then Acc.observe r 0 else 0
    split
    · exact Acc.observe_eq_add _ _
    · exact (add_zero _).symm
  · funext d dim value
    change (if _ then _ else _) = t.dayDim d dim value + if _ then Acc.observe r 0 else 0
    split
    · exact Acc.observe_eq_add _ _
    · exact (add_zero _).symm
  · funext d dim value
    exact congrArg (t.dayDistinct d dim value || ·) (Bool.false_or _).symm
  · funext d kind bucket
    exact congrArg (t.dayHist d kind bucket + ·) (zero_add _).symm

/-- The first `n` of the five DELETE statements of `clear_shard`; the fifth is for a table in
which the active shard has no row. -/
def clearFirst (n : ℕ) (t : DayTables) : DayTables where
  days := if 1 ≤ n then ∅ else t.days
  dayAgg := if 1 ≤ n then 0 else t.dayAgg
  dayDim := if 2 ≤ n then 0 else t.dayDim
  dayHist := if 3 ≤ n then 0 else t.dayHist
  dayDistinct := if 4 ≤ n then fun _ _ _ ↦ false else t.dayDistinct

def clearShard (t : DayTables) : DayTables := t.clearFirst 5

theorem clearShard_eq_zero (t : DayTables) : t.clearShard = 0 := rfl

theorem clearFirst_zero (n : ℕ) : clearFirst n 0 = 0 := by
  refine DayTables.ext ?_ ?_ ?_ ?_ ?_ <;> exact ite_self _

end DayTables

/-- The local day of a time is the clock's business: `local_day_ms`. -/
abbrev Calendar := ℤ → Option ℤ

variable (localDayMs : Calendar)

def Record.day (r : Record) : Option ℤ := r.timeMs.bind localDayMs

def DayTables.observeRecord (t : DayTables) (r : Record) : DayTables :=
  match r.day localDayMs with
  | some day => t.observe day r
  | none => t

def aggregate (records : List Record) : DayTables :=
  records.foldl (DayTables.observeRecord localDayMs) 0

structure Delta where
  maxTimeMs : ℤ
  lastTimeMs : ℤ
  tables : DayTables
  maxId : ℕ
  scanned : ℕ

def Delta.init (lastId : ℕ) : Delta := ⟨0, 0, 0, lastId, 0⟩

/-- One row of `scan_after`, a record with its id. -/
def Delta.scanRow (delta : Delta) (row : Record × ℕ) : Delta where
  maxId := max delta.maxId row.2
  scanned := delta.scanned + 1
  lastTimeMs := row.1.timeMs.getD 0
  maxTimeMs :=
    match row.1.timeMs with
    | some timeMs => max delta.maxTimeMs timeMs
    | none => delta.maxTimeMs
  tables := delta.tables.observeRecord localDayMs row.1

/-- `SELECT .. FROM records WHERE id > cursor ORDER BY id LIMIT n`. The records of a store have
the ids from 1 on. -/
def selectAfter (records : List Record) (cursor n : ℕ) : List (Record × ℕ) :=
  ((records.drop cursor).take n).zipIdx (cursor + 1)

section Lemmas

variable {localDayMs}

theorem observeRecord_eq_add (t : DayTables) (r : Record) :
    t.observeRecord localDayMs r = t + DayTables.observeRecord localDayMs 0 r := by
  rw [DayTables.observeRecord, DayTables.observeRecord]
  cases r.day localDayMs with
  | some day => exact DayTables.observe_eq_add day r t
  | none => exact (add_zero t).symm

theorem foldl_observeRecord (records : List Record) (t : DayTables) :
    records.foldl (DayTables.observeRecord localDayMs) t = t + aggregate localDayMs records := by
  rw [aggregate]
  induction records generalizing t with
  | nil => exact (add_zero t).symm
  | cons r records ih =>
    rw [List.foldl_cons, List.foldl_cons, ih, ih (DayTables.observeRecord localDayMs 0 r),
      observeRecord_eq_add t, add_assoc]

theorem aggregate_append (a b : List Record) :
    aggregate localDayMs (a ++ b) = aggregate localDayMs a + aggregate localDayMs b := by
  rw [aggregate, List.foldl_append, foldl_observeRecord]
  rfl

theorem scanRows_tables (records : List Record) (id : ℕ) (delta : Delta) :
    ((records.zipIdx id).foldl (Delta.scanRow localDayMs) delta).tables =
      delta.tables + aggregate localDayMs records := by
  rw [← foldl_observeRecord]
  induction records generalizing id delta with
  | nil => rfl
  | cons r records ih =>
    rw [List.zipIdx_cons, List.foldl_cons, ih]
    rfl

theorem scanRows_lastTimeMs (records : List Record) (id : ℕ) (delta : Delta) :
    ((records.zipIdx id).foldl (Delta.scanRow localDayMs) delta).lastTimeMs =
      (records.getLast?.map fun r ↦ r.timeMs.getD 0).getD delta.lastTimeMs := by
  induction records using List.reverseRecOn with
  | nil => rfl
  | append_singleton records r _ =>
    rw [List.zipIdx_append, List.foldl_append, List.getLast?_append]
    rfl

theorem aggregate_take_drop (records : List Record) {m n : ℕ} (h : m ≤ n) :
    aggregate localDayMs (records.take m) + aggregate localDayMs ((records.take n).drop m) =
      aggregate localDayMs (records.take n) := by
  have hsplit := List.take_append_drop m (records.take n)
  rw [List.take_take, Nat.min_eq_left h] at hsplit
  rw [← aggregate_append, hsplit]

theorem aggregate_eq_zero {records : List Record}
    (h : ∀ r ∈ records, r.day localDayMs = none) : aggregate localDayMs records = 0 := by
  rw [aggregate]
  induction records with
  | nil => rfl
  | cons r records ih =>
    have hr : DayTables.observeRecord localDayMs 0 r = 0 := by
      rw [DayTables.observeRecord, h r List.mem_cons_self]
    rw [List.foldl_cons, hr]
    exact ih fun r hr ↦ h r (List.mem_cons_of_mem _ hr)

theorem aggregate_rowsAll (records : List Record) (day : ℤ) :
    ((aggregate localDayMs records).dayAgg day).rowsAll =
      records.countP fun r ↦ decide (r.day localDayMs = some day) := by
  induction records using List.reverseRecOn with
  | nil => rfl
  | append_singleton records r ih =>
    rw [aggregate_append, List.countP_append, ← ih]
    change _ + ((aggregate localDayMs [r]).dayAgg day).rowsAll = _
    congr 1
    simp only [aggregate, List.foldl_cons, List.foldl_nil, DayTables.observeRecord,
      List.countP_singleton, decide_eq_true_eq]
    cases hday : r.day localDayMs with
    | none => simp; rfl
    | some d =>
      simp only [DayTables.observe, Option.some.injEq]
      by_cases hd : day = d
      · simp [hd, Acc.observe]; rfl
      · simp [hd, Ne.symm hd]; rfl

end Lemmas

section Floats

/-- The latency sum of records in `f64`, added up in parts: those of a run, of a day, of a shard or
of a slice. -/
def latencyF64 (parts : List (List Record)) : ℚ :=
  Binary64.sum (parts.map fun records ↦ Binary64.sum (records.filterMap (·.latencyMs)))

theorem latencySum_foldl (records : List Record) (a : Acc) :
    (records.foldl (fun a r ↦ a.observe r) a).latencySum =
      a.latencySum + (records.filterMap (·.latencyMs) : List ℚ) := by
  induction records generalizing a with
  | nil => exact (add_zero a.latencySum).symm
  | cons r records ih =>
    rw [List.foldl_cons, ih]
    cases hlatency : r.latencyMs with
    | none =>
      rw [List.filterMap_cons_none hlatency, Acc.observe, hlatency]
      exact congrArg (· + _) (add_zero _)
    | some v =>
      rw [List.filterMap_cons_some hlatency, Acc.observe, hlatency, ← Multiset.cons_coe,
        ← Multiset.singleton_add, ← add_assoc]
      rfl

theorem sumsTo_latencyF64 (parts : List (List Record)) :
    SumsTo (parts.flatten.foldl (fun a r ↦ a.observe r) (0 : Acc)).latencySum
      (latencyF64 parts) := by
  have hparts : (parts.flatten.foldl (fun a r ↦ a.observe r) (0 : Acc)).latencySum =
      (parts.map fun records ↦ ((records.filterMap (·.latencyMs) : List ℚ) : FloatSum)).sum := by
    rw [latencySum_foldl, List.filterMap_flatten]
    induction parts with
    | nil => rfl
    | cons records parts ih =>
      rw [List.map_cons, List.flatten_cons, ← Multiset.coe_add, List.map_cons, List.sum_cons, ← ih]
      exact add_left_comm _ _ _
  rw [hparts]
  exact SumsTo.sum fun records _ ↦ sumsTo_sum _

/-- The same latencies come to two floats in two orders of adding them. -/
def RoundsApart (parts parts' : List (List Record)) : Prop :=
  latencyF64 parts ≠ latencyF64 parts' ∧
    ∃ values, SumsTo values (latencyF64 parts) ∧ SumsTo values (latencyF64 parts')

theorem roundsApart_of_ne {parts parts' : List (List Record)}
    (hne : latencyF64 parts ≠ latencyF64 parts') (h : parts.flatten.Perm parts'.flatten) :
    RoundsApart parts parts' := by
  refine ⟨hne, _, sumsTo_latencyF64 parts, ?_⟩
  rw [latencySum_foldl, Multiset.coe_eq_coe.mpr (h.filterMap _), ← latencySum_foldl]
  exact sumsTo_latencyF64 parts'

def tenths (ms : ℤ) (n : ℕ) : Record where
  timeMs := some ms
  status := some 200
  latencyMs := some (Binary64.nearest (n / 10))

end Floats

def utcDay : Calendar := fun ms ↦ some (ms / 86400000 * 86400000)

def recordAt (ms : ℤ) : Record where
  timeMs := some ms
  status := some 200

end QueQiao.Aggregate
