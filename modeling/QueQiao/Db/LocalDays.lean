import QueQiao.Db.AggregateBuild
import QueQiao.Lib.Partition

namespace QueQiao.Aggregate

open Lib.Aggregation

section Offsets

/-- A local time zone with any offset from UTC at each instant. `ofLocal` is
`from_local_datetime(..).single()`: the instant at which it is a given local time, if there is
exactly one. -/
structure LocalZone where
  minMs : ℤ
  maxMs : ℤ
  offsetMs : ℤ → ℤ
  ofLocal : ℤ → Option ℤ
  ofLocal_eq_some : ∀ time ms, ofLocal time = some ms ↔
    (minMs ≤ ms ∧ ms ≤ maxMs ∧ ms + offsetMs ms = time) ∧
      ∀ other, minMs ≤ other ∧ other ≤ maxMs ∧ other + offsetMs other = time → other = ms

namespace LocalZone

variable (zone : LocalZone)

def single (ms : ℤ) : Option ℤ := if zone.minMs ≤ ms ∧ ms ≤ zone.maxMs then some ms else none

def dayNumber (ms : ℤ) : ℤ := (ms + zone.offsetMs ms) / dayLength

/-- `with_ymd_and_hms` at midnight of the day with a number. -/
def midnight (day : ℤ) : Option ℤ := zone.ofLocal (day * dayLength)

def localDayMs : Calendar :=
  fun ms ↦ (zone.single ms).bind fun ms ↦ zone.midnight (zone.dayNumber ms)

/-- One day of the clock is added to the instant, and the date of the sum is truncated. -/
def nextLocalDay (dayMs : ℤ) : Option ℤ :=
  (zone.single dayMs).bind fun dayMs ↦ (zone.single (dayMs + dayLength)).bind fun next ↦
    zone.midnight (zone.dayNumber next)

/-- The days that a walk with `next_local_day` visits in `n` steps. It ends where there is no next
day. -/
def walk : ℕ → ℤ → List ℤ
  | 0, dayMs => [dayMs]
  | n + 1, dayMs => dayMs :: (zone.nextLocalDay dayMs).elim [] (walk n)

/-- It is midnight at the start of the day with a number. -/
structure IsMidnight (day ms : ℤ) : Prop where
  le : zone.minMs ≤ ms
  ge : ms ≤ zone.maxMs
  time : ms + zone.offsetMs ms = day * dayLength

noncomputable def ofOffset (minMs maxMs : ℤ) (offsetMs : ℤ → ℤ) : LocalZone where
  minMs := minMs
  maxMs := maxMs
  offsetMs := offsetMs
  ofLocal := fun time ↦ open Classical in
    if h : ∃ ms, (minMs ≤ ms ∧ ms ≤ maxMs ∧ ms + offsetMs ms = time) ∧
      ∀ other, minMs ≤ other ∧ other ≤ maxMs ∧ other + offsetMs other = time → other = ms
    then some h.choose else none
  ofLocal_eq_some := by
    intro time ms
    split
    · rename_i h
      rw [Option.some.injEq]
      constructor
      · rintro rfl
        exact h.choose_spec
      · intro hms
        exact hms.2 _ h.choose_spec.1
    · rename_i h
      exact iff_of_false (fun hnone ↦ by cases hnone) fun hms ↦ h ⟨ms, hms⟩

def changing (minMs maxMs changeMs before after : ℤ) : LocalZone where
  minMs := minMs
  maxMs := maxMs
  offsetMs := fun ms ↦ if ms < changeMs then before else after
  ofLocal := fun time ↦
    if minMs ≤ time - before ∧ time - before ≤ maxMs ∧ time - before < changeMs then
      if minMs ≤ time - after ∧ time - after ≤ maxMs ∧ changeMs ≤ time - after then none
      else some (time - before)
    else if minMs ≤ time - after ∧ time - after ≤ maxMs ∧ changeMs ≤ time - after then
      some (time - after)
    else none
  ofLocal_eq_some := by
    intro time ms
    have hother := fun other ↦ show (minMs ≤ other ∧ other ≤ maxMs ∧
        other + (if other < changeMs then before else after) = time) ↔
        (minMs ≤ other ∧ other ≤ maxMs ∧
          (other < changeMs ∧ other = time - before ∨ changeMs ≤ other ∧ other = time - after)) by
      split <;> omega
    simp only [hother]
    split <;> split <;> simp only [reduceCtorEq, Option.some.injEq, false_iff]
    · intro h
      have hbefore := h.2 (time - before) (by omega)
      have hafter := h.2 (time - after) (by omega)
      omega
    · constructor
      · intro h
        exact ⟨by omega, fun other ho ↦ by omega⟩
      · intro h
        omega
    · constructor
      · intro h
        exact ⟨by omega, fun other ho ↦ by omega⟩
      · intro h
        omega
    · intro h
      omega

end LocalZone

theorem Zone.single_sub_eq_some (zone : Zone) : ∀ time ms,
    zone.single (time - zone.offsetMs) = some ms ↔
      (zone.minMs ≤ ms ∧ ms ≤ zone.maxMs ∧ ms + zone.offsetMs = time) ∧
        ∀ other, zone.minMs ≤ other ∧ other ≤ zone.maxMs ∧ other + zone.offsetMs = time →
          other = ms := by
  intro time ms
  rw [Zone.single_eq_some, Zone.valid, Bool.and_eq_true, decide_eq_true_eq, decide_eq_true_eq]
  constructor
  · intro h
    exact ⟨by omega, fun other ho ↦ by omega⟩
  · intro h
    omega

def Zone.toLocalZone (zone : Zone) : LocalZone where
  minMs := zone.minMs
  maxMs := zone.maxMs
  offsetMs := fun _ ↦ zone.offsetMs
  ofLocal := fun time ↦ zone.single (time - zone.offsetMs)
  ofLocal_eq_some := zone.single_sub_eq_some

end Offsets

section FixedOffset

variable (zone : Zone) (ms : ℤ)

theorem Zone.toLocalZone_midnight :
    zone.toLocalZone.midnight (zone.toLocalZone.dayNumber ms) = zone.single (zone.dayStart ms) :=
  rfl

theorem Zone.toLocalZone_single : zone.toLocalZone.single ms = zone.single ms := by
  simp only [LocalZone.single, Zone.single, Zone.valid, Bool.and_eq_true, decide_eq_true_eq,
    toLocalZone]

theorem Zone.toLocalZone_localDayMs : zone.toLocalZone.localDayMs ms = zone.localDayMs ms := by
  simp only [LocalZone.localDayMs, localDayMs, toLocalZone_single, toLocalZone_midnight]

theorem Zone.toLocalZone_nextLocalDay :
    zone.toLocalZone.nextLocalDay ms = zone.nextLocalDay ms := by
  simp only [LocalZone.nextLocalDay, nextLocalDay, toLocalZone_single, toLocalZone_midnight]

end FixedOffset

section NextDay

namespace LocalZone

variable {zone : LocalZone} {day ms next : ℤ}

theorem single_eq_some {ms' : ℤ} :
    zone.single ms = some ms' ↔ (zone.minMs ≤ ms ∧ ms ≤ zone.maxMs) ∧ ms = ms' := by
  rw [single, Option.ite_none_right_eq_some, Option.some.injEq]

theorem midnight_eq_some : zone.midnight day = some ms ↔
    zone.IsMidnight day ms ∧ ∀ other, zone.IsMidnight day other → other = ms := by
  rw [midnight, zone.ofLocal_eq_some]
  constructor
  · rintro ⟨⟨hle, hge, htime⟩, honly⟩
    exact ⟨⟨hle, hge, htime⟩, fun other ho ↦ honly other ⟨ho.le, ho.ge, ho.time⟩⟩
  · rintro ⟨⟨hle, hge, htime⟩, honly⟩
    exact ⟨⟨hle, hge, htime⟩, fun other ho ↦ honly other ⟨ho.1, ho.2.1, ho.2.2⟩⟩

theorem nextLocalDay_eq_some (hle : zone.minMs ≤ ms) (hge : ms ≤ zone.maxMs) :
    zone.nextLocalDay ms = some next ↔
      (zone.minMs ≤ ms + dayLength ∧ ms + dayLength ≤ zone.maxMs) ∧
        zone.midnight (zone.dayNumber (ms + dayLength)) = some next := by
  rw [nextLocalDay, Option.bind_eq_some_iff]
  constructor
  · rintro ⟨ms', hms, hnext⟩
    obtain ⟨-, rfl⟩ := single_eq_some.mp hms
    obtain ⟨later, hlater, hnext⟩ := Option.bind_eq_some_iff.mp hnext
    obtain ⟨hvalid, rfl⟩ := single_eq_some.mp hlater
    exact ⟨hvalid, hnext⟩
  · rintro ⟨hvalid, hnext⟩
    refine ⟨ms, single_eq_some.mpr ⟨⟨hle, hge⟩, rfl⟩, ?_⟩
    exact Option.bind_eq_some_iff.mpr ⟨_, single_eq_some.mpr ⟨hvalid, rfl⟩, hnext⟩

theorem IsMidnight.day_eq {day' : ℤ} (h : zone.IsMidnight day ms) (h' : zone.IsMidnight day' ms) :
    day = day' := by
  have htime := h.time.symm.trans h'.time
  simp only [dayLength] at htime
  omega

/-- The date 24 hours after a midnight is that of the day after where the offset has not gone back
and has not gone forward by a day. -/
theorem IsMidnight.dayNumber_add (h : zone.IsMidnight day ms) :
    zone.dayNumber (ms + dayLength) = day + 1 ↔
      zone.offsetMs ms ≤ zone.offsetMs (ms + dayLength) ∧
        zone.offsetMs (ms + dayLength) < zone.offsetMs ms + dayLength := by
  have htime := h.time
  simp only [dayNumber, dayLength] at *
  omega

/-- The step from a day to the day after: what `next_local_day` is for. -/
structure Leads (zone : LocalZone) (day ms next : ℤ) : Prop where
  step : zone.nextLocalDay ms = some next
  start : zone.IsMidnight (day + 1) next
  later : ms < next

/-- In the 24 hours from the start of a day the offset does not go back, and it does not go forward
by as much as a day; the day after starts once, and the clock has not gone forward by a day until
then. -/
structure OffsetKept (zone : LocalZone) (day ms : ℤ) : Prop where
  valid : ms + dayLength ≤ zone.maxMs
  kept : zone.offsetMs ms ≤ zone.offsetMs (ms + dayLength)
  below : zone.offsetMs (ms + dayLength) < zone.offsetMs ms + dayLength
  once : ∀ next other, zone.IsMidnight (day + 1) next → zone.IsMidnight (day + 1) other →
    other = next
  order : ∀ next, zone.IsMidnight (day + 1) next →
    zone.offsetMs next < zone.offsetMs ms + dayLength

theorem IsMidnight.lt_iff (h : zone.IsMidnight day ms) (hnext : zone.IsMidnight (day + 1) next) :
    ms < next ↔ zone.offsetMs next < zone.offsetMs ms + dayLength := by
  have htime := h.time
  have htime' := hnext.time
  simp only [dayLength] at *
  omega

theorem IsMidnight.leads_iff (h : zone.IsMidnight day ms)
    (hnext : ∃ next, zone.IsMidnight (day + 1) next) :
    (∃ next, zone.Leads day ms next) ↔ zone.OffsetKept day ms := by
  obtain ⟨next, hnext⟩ := hnext
  constructor
  · rintro ⟨next', hstep, hstart, hlater⟩
    obtain ⟨hvalid, hmidnight⟩ := (nextLocalDay_eq_some h.le h.ge).mp hstep
    obtain ⟨hdate, honly⟩ := midnight_eq_some.mp hmidnight
    have hday := hdate.day_eq hstart
    rw [hday] at honly
    obtain ⟨hkept, hbelow⟩ := h.dayNumber_add.mp hday
    refine ⟨hvalid.2, hkept, hbelow, ?_, ?_⟩
    · intro a b ha hb
      exact (honly b hb).trans (honly a ha).symm
    · intro a ha
      obtain rfl := honly a ha
      exact (h.lt_iff ha).mp hlater
  · intro hoffset
    have hday := h.dayNumber_add.mpr ⟨hoffset.kept, hoffset.below⟩
    have hvalid : zone.minMs ≤ ms + dayLength := by
      have hle := h.le
      simp only [dayLength]
      omega
    refine ⟨next, ?_, hnext, (h.lt_iff hnext).mpr (hoffset.order next hnext)⟩
    refine (nextLocalDay_eq_some h.le h.ge).mpr ⟨⟨hvalid, hoffset.valid⟩, ?_⟩
    rw [hday]
    exact midnight_eq_some.mpr ⟨hnext, fun other ho ↦ hoffset.once next other hnext ho⟩

/-- From the start of each of `n` days `next_local_day` leads to the start of the day after, and
the walk from the first of them visits every day once and in order. -/
structure WalksDays (zone : LocalZone) (first : ℤ) (n : ℕ) : Prop where
  leads : ∀ day ms, first ≤ day → day < first + n → zone.IsMidnight day ms →
    ∃ next, zone.Leads day ms next
  visits : ∀ ms, zone.IsMidnight first ms →
    List.Forall₂ zone.IsMidnight ((List.range (n + 1)).map fun k : ℕ ↦ first + k) (zone.walk n ms)
  once : ∀ ms, zone.IsMidnight first ms → (zone.walk n ms).IsChain (· < ·)

/-- The offset is kept on each of `n` days. -/
def KeepsOffset (zone : LocalZone) (first : ℤ) (n : ℕ) : Prop :=
  ∀ day ms, first ≤ day → day < first + n → zone.IsMidnight day ms → zone.OffsetKept day ms

theorem walk_of_leads (n : ℕ) : ∀ {first ms : ℤ}, zone.IsMidnight first ms →
    (∀ day ms, first ≤ day → day < first + n → zone.IsMidnight day ms →
      ∃ next, zone.Leads day ms next) →
    List.Forall₂ zone.IsMidnight ((List.range (n + 1)).map fun k : ℕ ↦ first + k) (zone.walk n ms) ∧
      (zone.walk n ms).IsChain (· < ·) := by
  induction n with
  | zero =>
    intro first ms h _
    rw [List.range_one, List.map_singleton, Nat.cast_zero, add_zero]
    exact ⟨.cons h .nil, .singleton ms⟩
  | succ n ih =>
    intro first ms h hleads
    obtain ⟨next, hnext⟩ := hleads first ms le_rfl (by omega) h
    obtain ⟨hvisits, honce⟩ := ih hnext.start fun day ms' hfirst hlast hday ↦
      hleads day ms' (by omega) (by omega) hday
    have hwalk : zone.walk (n + 1) ms = ms :: zone.walk n next := by
      rw [walk, hnext.step]
      rfl
    have hdays : ((List.range (n + 1 + 1)).map fun k : ℕ ↦ first + k) =
        first :: (List.range (n + 1)).map fun k : ℕ ↦ first + 1 + k := by
      rw [List.range_succ_eq_map, List.map_cons, List.map_map, Nat.cast_zero, add_zero]
      refine congrArg _ (List.map_congr_left fun k _ ↦ ?_)
      rw [Function.comp_apply, Nat.cast_succ, add_comm (k : ℤ) 1, add_assoc]
    rw [hwalk, hdays]
    refine ⟨.cons h hvisits, ?_⟩
    cases n with
    | zero => exact .cons_cons hnext.later (.singleton next)
    | succ n => exact .cons_cons hnext.later honce

/-- The walk goes through all days exactly if every step keeps the offset. The days of a fixed
offset, which the tables are built with, are those of a zone whose offset never changes. -/
theorem walksDays_iff_offsetKept (zone : LocalZone) (first : ℤ) (n : ℕ)
    (hexists : ∀ day, first ≤ day → day ≤ first + n → ∃ ms, zone.IsMidnight day ms) :
    (zone.WalksDays first n ↔ zone.KeepsOffset first n) ∧
      ∀ (fixed : Zone) (ms : ℤ), fixed.toLocalZone.nextLocalDay ms = fixed.nextLocalDay ms ∧
        fixed.toLocalZone.localDayMs ms = fixed.localDayMs ms := by
  refine ⟨?_, fun fixed ms ↦ ⟨fixed.toLocalZone_nextLocalDay ms, fixed.toLocalZone_localDayMs ms⟩⟩
  constructor
  · intro hwalks day ms hfirst hlast hday
    exact (hday.leads_iff (hexists _ (by omega) (by omega))).mp
      (hwalks.leads day ms hfirst hlast hday)
  · intro hkept
    have hleads : ∀ day ms, first ≤ day → day < first + n → zone.IsMidnight day ms →
        ∃ next, zone.Leads day ms next := by
      intro day ms hfirst hlast hday
      exact (hday.leads_iff (hexists _ (by omega) (by omega))).mpr (hkept day ms hfirst hlast hday)
    exact ⟨hleads, fun ms h ↦ (walk_of_leads n h hleads).1, fun ms h ↦ (walk_of_leads n h hleads).2⟩

def spring : LocalZone :=
  changing (-8334601228800000) 8210266876799999 1711846800000 3600000 7200000

def autumn : LocalZone :=
  changing (-8334601228800000) 8210266876799999 1729990800000 7200000 3600000

theorem walksDays_iff_offsetKept_spring : spring.WalksDays 19813 1 ↔ spring.KeepsOffset 19813 1 :=
  (walksDays_iff_offsetKept spring 19813 1 fun day hfirst hlast ↦ by
    rcases (show day = 19813 ∨ day = 19814 by omega) with rfl | rfl
    · exact ⟨1711839600000, by decide, by decide, by decide⟩
    · exact ⟨1711922400000, by decide, by decide, by decide⟩).1

theorem nextLocalDay_stalls : ¬ ∀ (zone : LocalZone) (first : ℤ) (n : ℕ),
    (∀ day, first ≤ day → day ≤ first + n → ∃ ms, zone.IsMidnight day ms) →
      zone.WalksDays first n := by
  intro h
  have hexists : ∀ day : ℤ, 20023 ≤ day → day ≤ 20023 + (1 : ℕ) →
      ∃ ms, autumn.IsMidnight day ms := by
    intro day hfirst hlast
    rcases (show day = 20023 ∨ day = 20024 by omega) with rfl | rfl
    · exact ⟨1729980000000, by decide, by decide, by decide⟩
    · exact ⟨1730070000000, by decide, by decide, by decide⟩
  obtain ⟨next, hstep, -, hlater⟩ := (h autumn 20023 1 hexists).leads 20023 1729980000000 le_rfl
    (by decide) ⟨by decide, by decide, by decide⟩
  have hsame : autumn.nextLocalDay 1729980000000 = some 1729980000000 := by decide
  obtain rfl := Option.some.inj (hsame.symm.trans hstep)
  exact lt_irrefl _ hlater

end LocalZone

end NextDay

section FullDays

variable {zone : Zone} {fromMs toMs firstFull fullEnd : ℤ}

theorem Zone.nextLocalDay_isDay {day next : ℤ} (h : zone.nextLocalDay day = some next) :
    zone.localDayMs next = some next := by
  rw [nextLocalDay, Option.bind_eq_some_iff] at h
  obtain ⟨day', -, h⟩ := h
  obtain ⟨later, -, h⟩ := Option.bind_eq_some_iff.mp h
  obtain ⟨hvalid, rfl⟩ := single_eq_some.mp h
  exact localDayMs_eq_some.mpr ⟨hvalid, by rwa [dayStart_dayStart], dayStart_dayStart later⟩

theorem Zone.localDayMs_isDay {ms day : ℤ} (h : zone.localDayMs ms = some day) :
    zone.localDayMs day = some day := by
  obtain ⟨-, hvalid, rfl⟩ := localDayMs_eq_some.mp h
  exact localDayMs_eq_some.mpr ⟨hvalid, by rwa [dayStart_dayStart], dayStart_dayStart ms⟩

theorem correctionWindows_nonempty {window : ℤ × ℤ}
    (h : window ∈ correctionWindows fromMs toMs firstFull fullEnd) : window.1 ≤ window.2 := by
  rw [correctionWindows, List.mem_append] at h
  rcases h with h | h
  · rw [List.mem_ite_nil_right, List.mem_singleton] at h
    obtain ⟨hlt, rfl⟩ := h
    exact Int.le_sub_one_of_lt hlt
  · rw [List.mem_ite_nil_right, List.mem_singleton] at h
    obtain ⟨hle, rfl⟩ := h
    exact hle

theorem fullDayBounds_isDay (h : fullDayBounds zone fromMs toMs = some (firstFull, fullEnd)) :
    zone.localDayMs firstFull = some firstFull ∧ zone.localDayMs fullEnd = some fullEnd := by
  rw [fullDayBounds] at h
  simp only [Option.bind_eq_bind, Option.bind_eq_some_iff] at h
  obtain ⟨fromDay, hfrom, first, hfirst, toDay, hto, toDayEnd, hend, h⟩ := h
  obtain ⟨rfl, rfl⟩ := Prod.mk.inj (Option.some.inj h)
  constructor
  · split at hfirst
    · rw [← Option.some.inj hfirst]
      exact Zone.localDayMs_isDay hfrom
    · exact Zone.nextLocalDay_isDay hfirst
  · split
    · exact Zone.nextLocalDay_isDay hend
    · exact Zone.localDayMs_isDay hto

/-- The windows before and after the whole days, and the days between them. -/
theorem fullDayBounds_partition (zone : Zone) (fromMs toMs firstFull fullEnd : ℤ)
    (h : fullDayBounds zone fromMs toMs = some (firstFull, fullEnd)) (hlt : firstFull < fullEnd) :
    zone.localDayMs firstFull = some firstFull ∧ zone.localDayMs fullEnd = some fullEnd ∧
      ∃ before after, correctionWindows fromMs toMs firstFull fullEnd = before ++ after ∧
        ClosedPartition fromMs toMs (before ++ (firstFull, fullEnd - 1) :: after) := by
  obtain ⟨hfirst, hend⟩ := fullDayBounds_isDay h
  obtain ⟨before, after, hwindows, htiles⟩ := (wholeDays_of_fullDayBounds h).tiles hlt
  refine ⟨hfirst, hend, before, after, hwindows, htiles.partition fun window hwindow ↦ ?_⟩
  have hmem : window = (firstFull, fullEnd - 1) ∨
      window ∈ correctionWindows fromMs toMs firstFull fullEnd := by
    rw [hwindows, List.mem_append]
    rcases List.mem_append.mp hwindow with hbefore | hafter
    · exact .inr (.inl hbefore)
    · exact (List.mem_cons.mp hafter).imp_right .inr
  rcases hmem with rfl | hmem
  · exact Int.le_sub_one_of_lt hlt
  · exact correctionWindows_nonempty hmem

theorem fullDayBounds_partition_threeDays :
    (⟨28800000, -8334601228800000, 8210266876799999⟩ : Zone).localDayMs 57600000 = some 57600000 ∧
      (⟨28800000, -8334601228800000, 8210266876799999⟩ : Zone).localDayMs 144000000 =
        some 144000000 ∧
      ∃ before after, correctionWindows 1000 200000000 57600000 144000000 = before ++ after ∧
        ClosedPartition 1000 200000000 (before ++ (57600000, 144000000 - 1) :: after) :=
  fullDayBounds_partition ⟨28800000, -8334601228800000, 8210266876799999⟩ 1000 200000000 57600000
    144000000 (by decide) (by decide)

end FullDays

end QueQiao.Aggregate
