import QueQiao.Db.Aggregate
import QueQiao.Lib.Aggregation

namespace QueQiao.Aggregate

open Lib.Aggregation

section LocalDays

def dayLength : ℤ := 86400000

/-- A local time zone whose offset from UTC is fixed, and the times that can be represented. -/
structure Zone where
  offsetMs : ℤ
  minMs : ℤ
  maxMs : ℤ
  deriving Repr

namespace Zone

variable (zone : Zone)

def valid (ms : ℤ) : Bool := zone.minMs ≤ ms && ms ≤ zone.maxMs

def dayNumber (ms : ℤ) : ℤ := (ms + zone.offsetMs) / dayLength

def dayStart (ms : ℤ) : ℤ := zone.dayNumber ms * dayLength - zone.offsetMs

def single (ms : ℤ) : Option ℤ := if zone.valid ms then some ms else none

def localDayMs : Calendar := fun ms ↦ (zone.single ms).bind fun ms ↦ zone.single (zone.dayStart ms)

def nextLocalDay (dayMs : ℤ) : Option ℤ :=
  (zone.single dayMs).bind fun dayMs ↦ (zone.single (dayMs + dayLength)).bind fun next ↦
    zone.single (zone.dayStart next)

end Zone

structure Date where
  year : ℤ
  month : ℤ
  day : ℤ
  deriving DecidableEq, Repr

/-- The date of a day in the Gregorian calendar. Years are counted from March and in eras of 400
years. -/
def civil (day : ℤ) : Date :=
  let era := (day + 719468) / 146097
  let dayOfEra := (day + 719468) % 146097
  let yearOfEra := (dayOfEra - dayOfEra / 1460 + dayOfEra / 36524 - dayOfEra / 146096) / 365
  let dayOfYear := dayOfEra - (365 * yearOfEra + yearOfEra / 4 - yearOfEra / 100)
  let marchMonth := (5 * dayOfYear + 2) / 153
  let month := if marchMonth < 10 then marchMonth + 3 else marchMonth - 9
  { year := yearOfEra + era * 400 + if month ≤ 2 then 1 else 0
    month := month
    day := dayOfYear - (153 * marchMonth + 2) / 5 + 1 }

def padded (width : ℕ) (n : ℤ) : String :=
  let digits (width : ℕ) (n : ℕ) := String.join (List.replicate (width - (toString n).length) "0") ++
    toString n
  if n < 0 then "-" ++ digits (width - 1) n.natAbs else digits width n.natAbs

def Date.label (date : Date) (month : Bool) : String :=
  if month then padded 4 date.year ++ "-" ++ padded 2 date.month
  else padded 4 date.year ++ "-" ++ padded 2 date.month ++ "-" ++ padded 2 date.day

def Zone.localDayLabel (zone : Zone) (dayMs : ℤ) (month : Bool) : Option String :=
  (zone.single dayMs).map fun ms ↦ (civil (zone.dayNumber ms)).label month

/-- The whole local days of a range, as the first and the day after the last. There may be none,
and then the second is not after the first. -/
def fullDayBounds (zone : Zone) (fromMs toMs : ℤ) : Option (ℤ × ℤ) := do
  let fromDay ← zone.localDayMs fromMs
  let firstFull ←
    (if fromMs = fromDay then some fromDay else zone.nextLocalDay fromDay : Option ℤ)
  let toDay ← zone.localDayMs toMs
  let toDayEnd ← zone.nextLocalDay toDay
  some (firstFull, if toDayEnd ≤ toMs + 1 then toDayEnd else toDay)

def correctionWindows (fromMs toMs firstFull fullEnd : ℤ) : List (ℤ × ℤ) :=
  (if fromMs < firstFull then [(fromMs, firstFull - 1)] else []) ++
    if fullEnd ≤ toMs then [(fullEnd, toMs)] else []

end LocalDays

section Build

instance : AddCommMonoid Acc where
  add_comm a b := by
    refine Acc.ext ?_ ?_ ?_ ?_ ?_ ?_ ?_ ?_ ?_ ?_ ?_ ?_ <;>
      first
      | exact add_comm _ _
      | exact max_comm _ _

def dims : List Dim := [.model, .apikey, .ip, .type, .backend, .client, .status]

/-- The tables of a shard, with the rows that they have. -/
structure Tables where
  dayAgg : GroupMap ℤ Acc
  dayDim : GroupMap (ℤ × Dim × String) Acc
  dayDistinct : Finset (ℤ × Dim × String)
  dayHist : GroupMap (ℤ × HistKind × ℕ) ℕ

variable (localDayMs : Calendar) (rows : List Record)

def Record.acc (r : Record) : Acc := Acc.observe r 0

/-- The records with the day on which they are counted; the others are skipped. -/
def dated : List (ℤ × Record) :=
  rows.filterMap fun r ↦ (r.day localDayMs).map fun day ↦ (day, r)

def build : Tables where
  dayAgg := .ofRows ((dated localDayMs rows).map fun row ↦ (row.1, row.2.acc))
  dayDim := .ofRows ((dated localDayMs rows).flatMap fun row ↦
    dims.map fun dim ↦ ((row.1, dim, row.2.dimValue dim), row.2.acc))
  dayDistinct := ((dated localDayMs rows).flatMap fun row ↦
    [Dim.model, Dim.ip].filterMap fun dim ↦
      (row.2.raw dim).map fun raw ↦ (row.1, dim, raw)).toFinset
  dayHist := .ofRows ((dated localDayMs rows).flatMap fun row ↦
    [HistKind.latency, HistKind.ttft].filterMap fun kind ↦
      (row.2.bucket kind).map fun bucket ↦ ((row.1, kind, bucket), 1))

structure Slice where
  days : List (ℤ × Acc)
  dims : Dim → GroupMap String Acc
  distinct : Dim → Finset String
  latencyHist : GroupMap ℤ ℕ
  ttftHist : GroupMap ℤ ℕ

variable (firstDay endDay : ℤ)

def onDays (day : ℤ) : Bool := firstDay ≤ day && day < endDay

def Tables.hist (tables : Tables) (kind : HistKind) : GroupMap ℤ ℕ :=
  tables.dayHist.select fun (day, k, bucket) ↦
    if onDays firstDay endDay day ∧ k = kind then some (bucket : ℤ) else none

def readRange (tables : Tables) : Slice where
  days := (tables.dayAgg.select fun day ↦
    if onDays firstDay endDay day then some day else none).entries
  dims := fun dim ↦ tables.dayDim.select fun (day, d, value) ↦
    if onDays firstDay endDay day ∧ d = dim then some value else none
  distinct := fun dim ↦ ((tables.dayDistinct.filter fun row ↦
    onDays firstDay endDay row.1 ∧ row.2.1 = dim).image fun row ↦ row.2.2)
  latencyHist := tables.hist firstDay endDay .latency
  ttftHist := tables.hist firstDay endDay .ttft

end Build

section Lemmas

variable {zone : Zone} {fromMs toMs firstFull fullEnd : ℤ}

namespace Zone

theorem dayStart_le (ms : ℤ) : zone.dayStart ms ≤ ms := by
  simp only [dayStart, dayNumber, dayLength]
  omega

theorem lt_dayStart_add (ms : ℤ) : ms < zone.dayStart ms + dayLength := by
  simp only [dayStart, dayNumber, dayLength]
  omega

theorem dayStart_dayStart (ms : ℤ) : zone.dayStart (zone.dayStart ms) = zone.dayStart ms := by
  simp only [dayStart, dayNumber, dayLength]
  omega

theorem dayStart_add (ms : ℤ) : zone.dayStart (ms + dayLength) = zone.dayStart ms + dayLength := by
  simp only [dayStart, dayNumber, dayLength]
  omega

theorem le_dayStart_iff {day : ℤ} (ms : ℤ) (h : zone.dayStart day = day) :
    day ≤ zone.dayStart ms ↔ day ≤ ms := by
  simp only [dayStart, dayNumber, dayLength] at *
  omega

theorem single_eq_some {ms ms' : ℤ} :
    zone.single ms = some ms' ↔ zone.valid ms = true ∧ ms = ms' := by
  rw [single, Option.ite_none_right_eq_some, Option.some.injEq]

theorem localDayMs_eq_some {ms day : ℤ} : zone.localDayMs ms = some day ↔
    zone.valid ms = true ∧ zone.valid (zone.dayStart ms) = true ∧ zone.dayStart ms = day := by
  rw [localDayMs, Option.bind_eq_some_iff]
  constructor
  · rintro ⟨ms', hms, hday⟩
    obtain ⟨hvalid, rfl⟩ := single_eq_some.mp hms
    exact ⟨hvalid, single_eq_some.mp hday⟩
  · rintro ⟨hvalid, hday⟩
    exact ⟨ms, single_eq_some.mpr ⟨hvalid, rfl⟩, single_eq_some.mpr hday⟩

theorem nextLocalDay_eq_some {day next : ℤ} (h : zone.nextLocalDay day = some next) :
    next = zone.dayStart day + dayLength := by
  rw [nextLocalDay, Option.bind_eq_some_iff] at h
  obtain ⟨day', hday, h⟩ := h
  obtain ⟨-, rfl⟩ := single_eq_some.mp hday
  rw [Option.bind_eq_some_iff] at h
  obtain ⟨next', hnext, h⟩ := h
  obtain ⟨-, rfl⟩ := single_eq_some.mp hnext
  rw [← dayStart_add]
  exact (single_eq_some.mp h).2.symm

end Zone

/-- The whole days of a range lie in it, begin and end with a day, and can be represented. -/
structure WholeDays (zone : Zone) (fromMs toMs firstFull fullEnd : ℤ) : Prop where
  from_le : fromMs ≤ firstFull
  le_to : fullEnd ≤ toMs + 1
  first : zone.dayStart firstFull = firstFull
  last : zone.dayStart fullEnd = fullEnd
  valid_from : zone.valid fromMs = true
  valid_to : zone.valid toMs = true

theorem wholeDays_of_fullDayBounds (h : fullDayBounds zone fromMs toMs = some (firstFull, fullEnd)) :
    WholeDays zone fromMs toMs firstFull fullEnd := by
  rw [fullDayBounds] at h
  simp only [Option.bind_eq_bind, Option.bind_eq_some_iff] at h
  obtain ⟨fromDay, hfrom, first, hfirst, toDay, hto, toDayEnd, hend, h⟩ := h
  obtain ⟨rfl, rfl⟩ := Prod.mk.inj (Option.some.inj h)
  obtain ⟨hvalidFrom, -, rfl⟩ := Zone.localDayMs_eq_some.mp hfrom
  obtain ⟨hvalidTo, -, rfl⟩ := Zone.localDayMs_eq_some.mp hto
  have hend := Zone.nextLocalDay_eq_some hend
  rw [Zone.dayStart_dayStart] at hend
  have hlast := zone.dayStart_le toMs
  have hfirst : fromMs ≤ first ∧ zone.dayStart first = first := by
    split at hfirst
    · rename_i heq
      obtain rfl := Option.some.inj hfirst
      exact ⟨heq.le, zone.dayStart_dayStart fromMs⟩
    · have hnext := Zone.nextLocalDay_eq_some hfirst
      rw [Zone.dayStart_dayStart] at hnext
      refine ⟨hnext ▸ (zone.lt_dayStart_add fromMs).le, ?_⟩
      rw [hnext, Zone.dayStart_add, Zone.dayStart_dayStart]
  refine ⟨hfirst.1, ?_, hfirst.2, ?_, hvalidFrom, hvalidTo⟩
  · split <;> omega
  · split
    · rw [hend, Zone.dayStart_add, Zone.dayStart_dayStart]
    · exact zone.dayStart_dayStart toMs

theorem WholeDays.filter_onDays (h : WholeDays zone fromMs toMs firstFull fullEnd) (ms : ℤ) :
    (zone.localDayMs ms).filter (onDays firstFull fullEnd) =
      if firstFull ≤ ms ∧ ms < fullEnd then some (zone.dayStart ms) else none := by
  obtain ⟨hfrom, hto, hfirst, hlast, hvalidFrom, hvalidTo⟩ := h
  have hle := zone.dayStart_le ms
  have hfirst := Zone.le_dayStart_iff ms hfirst
  have hlast := Zone.le_dayStart_iff ms hlast
  rw [Zone.valid, Bool.and_eq_true, decide_eq_true_eq, decide_eq_true_eq] at hvalidFrom hvalidTo
  split
  · rename_i hin
    have hday : zone.localDayMs ms = some (zone.dayStart ms) := by
      rw [Zone.localDayMs_eq_some, Zone.valid, Zone.valid]
      simp only [Bool.and_eq_true, decide_eq_true_eq, and_true]
      omega
    rw [hday, Option.filter_some, if_pos]
    simp only [onDays, Bool.and_eq_true, decide_eq_true_eq]
    omega
  · rename_i hout
    rw [Option.filter_eq_none_iff]
    intro day hday hon
    obtain ⟨-, -, rfl⟩ := Zone.localDayMs_eq_some.mp hday
    simp only [onDays, Bool.and_eq_true, decide_eq_true_eq] at hon
    omega

theorem WholeDays.tiles (h : WholeDays zone fromMs toMs firstFull fullEnd)
    (hlt : firstFull < fullEnd) : ∃ before after,
      correctionWindows fromMs toMs firstFull fullEnd = before ++ after ∧
      Tiles fromMs (toMs + 1) (before ++ (firstFull, fullEnd - 1) :: after) := by
  refine ⟨_, _, rfl, ?_⟩
  have hbefore : Tiles fromMs firstFull
      (if fromMs < firstFull then [(fromMs, firstFull - 1)] else []) := by
    split
    · exact .cons h.from_le (.nil _)
    · rw [le_antisymm h.from_le (by omega)]
      exact .nil _
  refine hbefore.append (.cons hlt.le ?_)
  split
  · exact .single (by assumption)
  · rw [le_antisymm h.le_to (by omega)]
    exact .nil _

end Lemmas

end QueQiao.Aggregate
