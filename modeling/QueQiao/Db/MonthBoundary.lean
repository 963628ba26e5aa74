import QueQiao.Db.ActiveMonth
import QueQiao.Lib.Calendar
import QueQiao.Lib.LocalTime

namespace QueQiao.ActiveMonth

open Lib.Transition Lib.Calendar Lib.LocalTime Audit Rotation

/-- The month of a number as `YYYYMM`. -/
def code (k : ℤ) : ℤ := k / 12 * 100 + (k % 12 + 1)

def yyyymm (clock : LocalClock) (ms : ℤ) : ℤ := code (monthOf (clock.day ms))

def yyyymmFromMs (clock : LocalClock) (ms : ℤ) : Option ℤ :=
  if clock.Valid ms then some (yyyymm clock ms) else none

def firstOfMonth (year month : ℤ) : Option ℤ :=
  if 1 ≤ month ∧ month ≤ 12 ∧ -262143 ≤ year ∧ year ≤ 262142 then
    some (monthStart (12 * year + (month - 1)))
  else none

def nextMonthBoundaryMs (clock : LocalClock) (activeYyyymm : ℤ) : ℤ :=
  let year := activeYyyymm.tdiv 100
  let month := activeYyyymm.tmod 100
  let next := if month = 12 then (year + 1, 1) else (year, month + 1)
  ((firstOfMonth next.1 next.2).bind fun day ↦ clock.earliest (day * dayMs)).getD (2 ^ 63 - 1)

def localMonths (clock : LocalClock) (startOf : ℤ → Option ℤ) : Months where
  yyyymm := yyyymm clock
  yyyymmFromMs := yyyymmFromMs clock
  monthStart := startOf
  nextMonthBoundaryMs := nextMonthBoundaryMs clock

def midnightAfter (activeYyyymm : ℤ) : ℤ :=
  monthStart (activeYyyymm / 100 * 12 + activeYyyymm % 100) * dayMs

section Calendar

variable {clock : LocalClock} {k ms first : ℤ}

theorem code_lt_code {j k : ℤ} : code j < code k ↔ j < k := by
  rw [code, code]
  omega

theorem midnightAfter_code (k : ℤ) : midnightAfter (code k) = monthStart (k + 1) * dayMs := by
  have hnext : code k / 100 * 12 + code k % 100 = k + 1 := by
    rw [code]
    omega
  rw [midnightAfter, hnext]

theorem lt_yyyymm_iff : code k < yyyymm clock ms ↔ midnightAfter (code k) ≤ clock.shows ms := by
  rw [yyyymm, code_lt_code, ← Int.add_one_le_iff, le_monthOf_iff, midnightAfter_code,
    LocalClock.day, Int.le_ediv_iff_mul_le (by decide)]

theorem nextMonthBoundaryMs_code (hpos : 0 < code k) (hlt : code k < 26214212)
    (h : clock.earliest (midnightAfter (code k)) = some first) :
    nextMonthBoundaryMs clock (code k) = first := by
  have hk : 0 ≤ k ∧ k < 12 * 262142 + 11 := by
    rw [code] at hpos hlt
    omega
  have hyear : (code k).tdiv 100 = k / 12 := by
    rw [Int.tdiv_eq_ediv_of_nonneg hpos.le, code]
    omega
  have hmonth : (code k).tmod 100 = k % 12 + 1 := by
    rw [Int.tmod_eq_emod_of_nonneg hpos.le, code]
    omega
  rw [midnightAfter_code] at h
  have hfirst : ∀ year month, year * 12 + (month - 1) = k + 1 → 1 ≤ month → month ≤ 12 →
      firstOfMonth year month = some (monthStart (k + 1)) := by
    intro year month hnext hge hle
    have hsum : 12 * year + (month - 1) = k + 1 := by omega
    rw [firstOfMonth, hsum]
    exact if_pos ⟨hge, hle, by omega, by omega⟩
  simp only [nextMonthBoundaryMs, hyear, hmonth]
  split_ifs with hdecember
  · rw [hfirst (k / 12 + 1) 1 (by omega) (by decide) (by decide), Option.bind_some, h]
    rfl
  · rw [hfirst (k / 12) (k % 12 + 1 + 1) (by omega) (by omega) (by omega), Option.bind_some, h]
    rfl

example : nextMonthBoundaryMs (LocalClock.putBack 0 (2 ^ 50) 0 28800000 0) 202612 =
    1798732800000 := by decide

theorem yyyymm_le_of_lt (hrepeats : clock.Repeats) (hvalid : clock.Valid ms)
    (h : clock.earliest (midnightAfter (code k)) = some first) (hlt : ms < first) :
    yyyymm clock ms ≤ code k := by
  have hbefore := LocalClock.shows_lt_of_lt hrepeats h hvalid hlt
  rw [← not_lt, lt_yyyymm_iff]
  omega

end Calendar

section Run

variable {α : Type*}

/-- The record whose `log_request` holds the lock. -/
def AppState.caller (s : AppState α) : Option α := s.rotation.bind (·.caller)

variable (clock : LocalClock) (startOf : ℤ → Option ℤ) (timeMs : α → Option ℤ)

/-- The active month has a next one that begins at a midnight of the local clock, neither the local
month nor the active one goes back, and every rotation that a record waits for completes. -/
def AppState.keepsUp (s : AppState α) (e : Event α) : Bool :=
  (0 < s.activeYyyymm && s.activeYyyymm < 26214212 &&
      (clock.earliest (midnightAfter s.activeYyyymm)).isSome) &&
    (s.newMonth (localMonths clock startOf) timeMs e).all (s.activeYyyymm ≤ ·) &&
    match e with
    | .tick now => clock.Valid now && yyyymm clock s.clock ≤ yyyymm clock now
    | .lock _ => s.atPath
    | .initDb outcome => s.caller.isNone || outcome = .ok
    | .finish => s.caller.isNone || s.stage = some (.resumed true true)
    | _ => true

structure UpToDate (s : AppState α) : Prop where
  valid : clock.Valid s.clock
  month : ∃ k, s.activeYyyymm = code k
  boundary : s.nextMonthBoundaryMs = nextMonthBoundaryMs clock s.activeYyyymm
  records : ∀ item ∈ s.records, ∀ ms, timeMs item = some ms →
    clock.Valid ms ∧ yyyymm clock ms ≤ yyyymm clock s.clock
  checked : ∀ item ∈ s.checked, ∀ ms, timeMs item = some ms → yyyymm clock ms ≤ s.activeYyyymm
  checking : ∀ nowMonth, s.stage = some (.checking nowMonth) → s.caller = none

variable {clock startOf timeMs} {s t : AppState α} {item : α}

theorem UpToDate.moveTo (h : UpToDate clock timeMs s) {stage : Stage}
    (hstage : ∀ nowMonth, stage ≠ .checking nowMonth) : UpToDate clock timeMs (s.moveTo stage) where
  valid := h.valid
  month := h.month
  boundary := h.boundary
  records := fun item hitem ↦ h.records item ((AppState.keeps_moveTo s stage).records hitem)
  checked := h.checked
  checking := by
    intro nowMonth hchecking
    simp only [AppState.stage, AppState.moveTo, Option.map_map, Option.map_eq_some_iff] at hchecking
    obtain ⟨r, -, heq⟩ := hchecking
    exact absurd heq (hstage nowMonth)

theorem UpToDate.hear (h : UpToDate clock timeMs s) : UpToDate clock timeMs s.hear := by
  rw [AppState.hear]
  split
  · split
    · exact h.moveTo fun _ heq ↦ by cases heq
    · exact h.moveTo fun _ heq ↦ by cases heq
    · exact h
  · exact h

theorem UpToDate.release (h : UpToDate clock timeMs s) (hcaller : ∀ item, s.caller = some item →
      ∀ ms, timeMs item = some ms → yyyymm clock ms ≤ s.activeYyyymm) :
    UpToDate clock timeMs s.release where
  valid := h.valid
  month := h.month
  boundary := h.boundary
  records := fun item hitem ↦ h.records item ((AppState.keeps_release s).records hitem)
  checked := by
    intro item hitem
    rcases List.mem_append.mp hitem with hitem | hitem
    · exact h.checked item hitem
    · exact hcaller item (Option.mem_toList.mp hitem)
  checking := nofun

theorem UpToDate.rotateLocked (h : UpToDate clock timeMs s)
    (hpath : s.atPath = true ∨ s.caller = none) : UpToDate clock timeMs s.rotateLocked := by
  rw [AppState.rotateLocked]
  split
  · exact h.moveTo fun _ heq ↦ by cases heq
  · rename_i hgone
    refine h.release fun item hitem ↦ ?_
    rw [hpath.resolve_left hgone] at hitem
    cases hitem

theorem UpToDate.setMonth (h : UpToDate clock timeMs s) {month : ℤ} (hmonth : ∃ k, month = code k)
    (hle : s.activeYyyymm ≤ month) :
    UpToDate clock timeMs (s.setMonth (localMonths clock startOf) month) where
  valid := h.valid
  month := hmonth
  boundary := rfl
  records := h.records
  checked := fun item hitem ms htime ↦ (h.checked item hitem ms htime).trans hle
  checking := h.checking

theorem exists_code_of_currentDataYyyymm {table : Table α} {month : ℤ}
    (h : currentDataYyyymm (localMonths clock startOf) timeMs table = some month) :
    ∃ k, month = code k := by
  obtain ⟨ms, -, hms⟩ := Option.bind_eq_some_iff.mp h
  obtain ⟨-, hmonth⟩ := Option.ite_none_right_eq_some.mp hms
  exact ⟨monthOf (clock.day ms), (Option.some.inj hmonth).symm⟩

theorem upToDate_start {now : ℤ} (hnow : clock.Valid now) (table : Table α) (ok : Bool) :
    UpToDate clock timeMs (start (localMonths clock startOf) timeMs now table ok) where
  valid := hnow
  month := by
    cases hmonth : (if ok then currentDataYyyymm (localMonths clock startOf) timeMs table
        else none) with
    | none => exact ⟨monthOf (clock.day now), by simp only [start, hmonth]; rfl⟩
    | some month =>
      obtain ⟨-, hdata⟩ := Option.ite_none_right_eq_some.mp hmonth
      obtain ⟨k, rfl⟩ := exists_code_of_currentDataYyyymm hdata
      exact ⟨k, by simp only [start, hmonth, Option.getD_some]⟩
  boundary := rfl
  records := nofun
  checked := nofun
  checking := nofun

theorem UpToDate.tick (h : UpToDate clock timeMs s) {now : ℤ} (hnow : clock.Valid now)
    (hle : yyyymm clock s.clock ≤ yyyymm clock now) :
    UpToDate clock timeMs { s with clock := now } where
  valid := hnow
  month := h.month
  boundary := h.boundary
  records := fun item hitem ms htime ↦
    ⟨(h.records item hitem ms htime).1, (h.records item hitem ms htime).2.trans hle⟩
  checked := h.checked
  checking := h.checking

theorem UpToDate.arrive (h : UpToDate clock timeMs s) (htime : timeMs item = some s.clock) :
    UpToDate clock timeMs { s with arrived := s.arrived ++ [item] } where
  valid := h.valid
  month := h.month
  boundary := h.boundary
  records := by
    intro x hx ms hms
    simp only [AppState.records, List.append_assoc, List.mem_append, List.mem_singleton] at hx
    have hmem : x ∈ s.records ∨ x = item := by
      simp only [AppState.records, List.mem_append]
      tauto
    rcases hmem with hmem | rfl
    · exact h.records x hmem ms hms
    · obtain rfl := Option.some.inj (htime.symm.trans hms)
      exact ⟨h.valid, le_rfl⟩
  checked := h.checked
  checking := h.checking

theorem UpToDate.pass (h : UpToDate clock timeMs s) (hrepeats : clock.Repeats)
    (hpos : 0 < s.activeYyyymm) (hlt : s.activeYyyymm < 26214212) {first : ℤ}
    (hfirst : clock.earliest (midnightAfter s.activeYyyymm) = some first) {i : ℕ}
    (hitem : s.arrived[i]? = some item)
    (htime : (timeMs item).any (· < s.nextMonthBoundaryMs) = true) :
    UpToDate clock timeMs
      { s with arrived := s.arrived.eraseIdx i, checked := s.checked ++ [item] } where
  valid := h.valid
  month := h.month
  boundary := h.boundary
  records := fun x hx ↦ h.records x ((keeps_erase hitem).records hx)
  checked := by
    intro x hx ms hms
    rcases List.mem_append.mp hx with hx | hx
    · exact h.checked x hx ms hms
    · obtain rfl := List.mem_singleton.mp hx
      have hvalid := (h.records x (List.mem_append_left _ (List.mem_of_getElem? hitem)) ms hms).1
      obtain ⟨k, hk⟩ := h.month
      rw [hms, Option.any_some, decide_eq_true_eq, h.boundary] at htime
      rw [hk] at hpos hlt hfirst htime
      rw [nextMonthBoundaryMs_code hpos hlt hfirst] at htime
      exact hk ▸ yyyymm_le_of_lt hrepeats hvalid hfirst htime
  checking := h.checking

theorem UpToDate.lock (h : UpToDate clock timeMs s) (hpath : s.atPath = true) {i : ℕ}
    (hitem : s.arrived[i]? = some item) :
    UpToDate clock timeMs
      { s with
        arrived := s.arrived.eraseIdx i
        rotation := some ⟨some item, .sealQueued⟩ }.rotateLocked := by
  refine UpToDate.rotateLocked ⟨h.valid, h.month, h.boundary, fun x hx ↦ h.records x ?_, h.checked,
    fun nowMonth hstage ↦ ?_⟩ (.inl hpath)
  · exact (keeps_lock hitem).records hx
  · cases hstage

theorem UpToDate.checkData (h : UpToDate clock timeMs s) {nowMonth : ℤ} (hcaller : s.caller = none)
    {dataMonth : Option ℤ} (hmonth : ∀ month, dataMonth = some month → nowMonth ≤ month →
      (∃ k, month = code k) ∧ s.activeYyyymm ≤ month) :
    UpToDate clock timeMs (s.checkData (localMonths clock startOf) nowMonth dataMonth) := by
  have hrelease : ∀ {u : AppState α}, UpToDate clock timeMs u → u.caller = none →
      UpToDate clock timeMs u.release := fun hu hnone ↦
    hu.release fun item hitem ↦ by cases hnone.symm.trans hitem
  cases dataMonth with
  | none => exact hrelease h hcaller
  | some month =>
    rw [AppState.checkData]
    split
    · exact h.rotateLocked (.inr hcaller)
    · rename_i hlt
      obtain ⟨hcode, hle⟩ := hmonth month rfl (Int.not_lt.mp hlt)
      split
      · exact hrelease (h.setMonth hcode hle) hcaller
      · exact hrelease h hcaller

theorem UpToDate.initDb (h : UpToDate clock timeMs s) {outcome : InitDb}
    (hok : s.caller = none ∨ outcome = .ok) : UpToDate clock timeMs (s.initDb outcome) := by
  cases outcome with
  | ok =>
    have hcreated : UpToDate clock timeMs s.createDb :=
      ⟨h.valid, h.month, h.boundary, h.records, h.checked, h.checking⟩
    exact hcreated.moveTo fun _ heq ↦ by cases heq
  | failed fileCreated =>
    have hpath : UpToDate clock timeMs { s with atPath := fileCreated } :=
      ⟨h.valid, h.month, h.boundary, h.records, h.checked, h.checking⟩
    refine hpath.release fun item hitem ↦ ?_
    cases (hok.resolve_right fun heq ↦ by cases heq).symm.trans hitem

theorem UpToDate.finish {cfg : WriterConfig} (h : UpToDate clock timeMs s)
    (hnew : (s.newMonth (localMonths clock startOf) timeMs .finish).all (s.activeYyyymm ≤ ·))
    (hok : s.caller = none ∨ s.stage = some (.resumed true true))
    (hs : step (localMonths clock startOf) timeMs cfg s .finish = some t) :
    UpToDate clock timeMs t := by
  have hrelease : s.stage ≠ some (.resumed true true) → UpToDate clock timeMs s.release := by
    intro hstage
    refine h.release fun item hitem ↦ ?_
    cases (hok.resolve_right hstage).symm.trans hitem
  simp only [step] at hs
  split at hs
  · rename_i hstage
    obtain rfl := Option.some.inj hs
    exact hrelease (by rw [hstage]; exact fun heq ↦ by cases heq)
  · rename_i rotated ok hstage
    obtain rfl := Option.some.inj hs
    split
    · rename_i hboth
      obtain ⟨rfl, rfl⟩ := Bool.and_eq_true_iff.mp hboth
      simp only [AppState.newMonth, hstage, Option.all_some, decide_eq_true_eq] at hnew
      have hset : UpToDate clock timeMs
          (s.setMonth (localMonths clock startOf) (yyyymm clock s.clock)) :=
        h.setMonth ⟨monthOf (clock.day s.clock), rfl⟩ hnew
      refine hset.release fun item hitem ms htime ↦ ?_
      have hmem : item ∈ s.records :=
        List.mem_append_right _ (List.mem_append_right _ (Option.mem_toList.mpr hitem))
      exact (h.records item hmem ms htime).2
    · rename_i hboth
      refine hrelease fun heq ↦ hboth ?_
      rw [hstage] at heq
      cases heq
      rfl
  · cases hs

theorem UpToDate.step {cfg : WriterConfig} {e : Event α} (h : UpToDate clock timeMs s)
    (hrepeats : clock.Repeats) (hok : s.keepsUp clock startOf timeMs e = true)
    (hs : step (localMonths clock startOf) timeMs cfg s e = some t) :
    UpToDate clock timeMs t := by
  simp only [AppState.keepsUp, Bool.and_eq_true, decide_eq_true_eq] at hok
  obtain ⟨⟨⟨⟨hpos, hlt⟩, hmidnight⟩, hnew⟩, hok⟩ := hok
  obtain ⟨first, hfirst⟩ := Option.isSome_iff_exists.mp hmidnight
  cases e with
  | tick now =>
    obtain rfl := Option.some.inj hs
    obtain ⟨hvalid, hle⟩ := Bool.and_eq_true_iff.mp hok
    exact h.tick (of_decide_eq_true hvalid) (of_decide_eq_true hle)
  | arrive item =>
    simp only [ActiveMonth.step, Option.ite_none_right_eq_some, Option.some.injEq] at hs
    obtain ⟨htime, rfl⟩ := hs
    exact h.arrive htime
  | pass i =>
    obtain ⟨item, hitem, rfl⟩ := Option.map_eq_some_iff.mp hs
    obtain ⟨hitem, htime⟩ := Option.filter_eq_some_iff.mp hitem
    exact h.pass hrepeats hpos hlt hfirst hitem htime
  | lock i =>
    simp only [ActiveMonth.step, Option.ite_none_left_eq_some] at hs
    obtain ⟨item, hitem, rfl⟩ := Option.map_eq_some_iff.mp hs.2
    exact h.lock hok (Option.filter_eq_some_iff.mp hitem).1
  | enqueue i =>
    obtain ⟨item, -, rfl⟩ := Option.map_eq_some_iff.mp hs
    refine ⟨h.valid, h.month, h.boundary, fun x hx ↦ h.records x ?_,
      fun x hx ↦ h.checked x (List.mem_of_mem_eraseIdx hx), h.checking⟩
    simp only [AppState.records, List.mem_append] at hx ⊢
    exact hx.imp_right fun hx ↦ hx.imp_left List.mem_of_mem_eraseIdx
  | check =>
    simp only [ActiveMonth.step, Option.ite_none_left_eq_some, Option.some.injEq] at hs
    obtain ⟨-, rfl⟩ := hs
    refine ⟨h.valid, h.month, h.boundary, fun x hx ↦ h.records x ?_, h.checked, fun _ _ ↦ rfl⟩
    simp only [AppState.records, List.mem_append] at hx ⊢
    exact hx.imp_right fun hx ↦ .inl (hx.resolve_right List.not_mem_nil)
  | data ok =>
    simp only [ActiveMonth.step] at hs
    split at hs
    · rename_i nowMonth hstage
      obtain rfl := Option.some.inj hs
      refine h.checkData (h.checking nowMonth hstage) fun month hmonth hle ↦ ?_
      obtain ⟨rfl, hdata⟩ := Option.ite_none_right_eq_some.mp hmonth
      simp only [AppState.newMonth, hstage, hdata, Option.filter_some, hle, decide_true, if_true,
        Option.all_some, decide_eq_true_eq] at hnew
      exact ⟨exists_code_of_currentDataYyyymm hdata, hnew⟩
    · cases hs
  | command =>
    obtain ⟨⟨cmd, stage⟩, hstage, hs⟩ := Option.bind_eq_some_iff.mp hs
    obtain ⟨w, -, rfl⟩ := Option.map_eq_some_iff.mp hs
    have hwriter : UpToDate clock timeMs { s with writer := w } :=
      ⟨h.valid, h.month, h.boundary, h.records, h.checked, h.checking⟩
    refine (hwriter.moveTo fun nowMonth heq ↦ ?_).hear
    obtain ⟨before, -, hcommand⟩ := Option.bind_eq_some_iff.mp hstage
    subst heq
    cases before <;> cases hcommand
  | closed =>
    simp only [ActiveMonth.step, Option.ite_none_right_eq_some] at hs
    obtain ⟨stage, hstage, rfl⟩ := Option.map_eq_some_iff.mp hs.2
    refine h.moveTo fun nowMonth heq ↦ ?_
    obtain ⟨before, -, hrefused⟩ := Option.bind_eq_some_iff.mp hstage
    subst heq
    cases before <;> cases hrefused
  | rename ok =>
    simp only [ActiveMonth.step] at hs
    split at hs
    · obtain rfl := Option.some.inj hs
      split
      · have hpath : UpToDate clock timeMs { s with atPath := false } :=
          ⟨h.valid, h.month, h.boundary, h.records, h.checked, h.checking⟩
        exact hpath.moveTo fun _ heq ↦ by cases heq
      · exact h.moveTo fun _ heq ↦ by cases heq
    · cases hs
  | initDb outcome =>
    simp only [ActiveMonth.step] at hs
    split at hs
    · obtain rfl := Option.some.inj hs
      exact h.initDb ((Bool.or_eq_true_iff.mp hok).imp Option.isNone_iff_eq_none.mp
        of_decide_eq_true)
    · cases hs
  | finish =>
    exact h.finish hnew ((Bool.or_eq_true_iff.mp hok).imp Option.isNone_iff_eq_none.mp
      of_decide_eq_true) hs
  | writer e =>
    simp only [ActiveMonth.step, Option.ite_none_right_eq_some] at hs
    obtain ⟨w, -, rfl⟩ := Option.map_eq_some_iff.mp hs.2
    have hwriter : UpToDate clock timeMs { s with writer := w } :=
      ⟨h.valid, h.month, h.boundary, h.records, h.checked, h.checking⟩
    exact hwriter.hear

/-- Along a run that keeps up no record is enqueued whose month is after the active one, and none
takes the lock before the local clock has been in a later month. -/
theorem enqueued_in_time (hrepeats : clock.Repeats) {cfg : WriterConfig} {now : ℤ}
    (hnow : clock.Valid now) {table : Table α} {ok : Bool} {tr : List (AppState α × Event α)}
    (h : Path (step (localMonths clock startOf) timeMs cfg)
      (start (localMonths clock startOf) timeMs now table ok) tr t)
    (hok : ∀ p ∈ tr, p.1.keepsUp clock startOf timeMs p.2 = true) :
    ∀ p ∈ tr, ∀ i ms,
      (p.2 = .enqueue i → p.1.checked[i]?.bind timeMs = some ms →
        yyyymm clock ms ≤ p.1.activeYyyymm) ∧
      (p.2 = .lock i → p.1.arrived[i]?.bind timeMs = some ms →
        ∃ before, clock.Valid before ∧ before ≤ ms ∧
          p.1.activeYyyymm < yyyymm clock before) := by
  rintro ⟨s, e⟩ hp i ms
  obtain ⟨before, after, rfl⟩ := List.append_of_mem hp
  obtain ⟨hbefore, u, hs⟩ := h.before rfl
  have hinv : UpToDate clock timeMs s :=
    hbefore.invariant (fun s e ↦ s.keepsUp clock startOf timeMs e = true)
      (fun p hp ↦ hok p (List.mem_append_left _ hp)) (upToDate_start hnow table ok)
      fun _ _ _ hs hok hst ↦ hs.step hrepeats hok hst
  constructor
  · rintro rfl htime
    obtain ⟨item, hitem, htime⟩ := Option.bind_eq_some_iff.mp htime
    exact hinv.checked item (List.mem_of_getElem? hitem) ms htime
  · rintro rfl htime
    obtain ⟨item, hitem, htime⟩ := Option.bind_eq_some_iff.mp htime
    have hkeeps := hok _ hp
    simp only [AppState.keepsUp, Bool.and_eq_true, decide_eq_true_eq] at hkeeps
    obtain ⟨⟨⟨⟨hpos, hlt⟩, hmidnight⟩, -⟩, -⟩ := hkeeps
    obtain ⟨first, hfirst⟩ := Option.isSome_iff_exists.mp hmidnight
    simp only [ActiveMonth.step, Option.ite_none_left_eq_some, hitem] at hs
    obtain ⟨x, hx, -⟩ := Option.map_eq_some_iff.mp hs.2
    obtain ⟨hx, hboundary⟩ := Option.filter_eq_some_iff.mp hx
    obtain rfl := Option.some.inj hx
    obtain ⟨k, hk⟩ := hinv.month
    rw [htime, Option.any_some, decide_eq_true_eq, hinv.boundary] at hboundary
    simp only [hk] at hpos hlt hfirst hboundary ⊢
    rw [nextMonthBoundaryMs_code hpos hlt hfirst] at hboundary
    obtain ⟨hvalid, hshows, -⟩ := LocalClock.earliest_spec hfirst
    exact ⟨first, hvalid, hboundary, lt_yyyymm_iff.mpr hshows.ge⟩

def backInOctober : LocalClock := .putBack 0 (2 ^ 50) 1792890000000 7200000 3600000

/-- The last millisecond of September and the first of October, each with a record. -/
def monthEnd : List (Event ℤ) :=
  [.arrive 1790805599999, .pass 0, .tick 1790805600000, .arrive 1790805600000, .lock 0, .command,
    .writer .drain, .writer (.checkpoint true), .rename true, .initDb .ok, .command,
    .writer (.opened true), .finish, .enqueue 1, .enqueue 0]

theorem enqueued_in_time_monthEnd : ∃ tr t,
    Path (step (localMonths backInOctober fun _ ↦ none) some ⟨200, 10000⟩)
        (start (localMonths backInOctober fun _ ↦ none) some 1790805599999 .empty true) tr t ∧
      tr.map Prod.snd = monthEnd ∧ t.activeYyyymm = 202610 ∧
      t.writer.queue = [1790805600000, 1790805599999] ∧
      ∀ p ∈ tr, ∀ i ms,
        (p.2 = .enqueue i → p.1.checked[i]?.bind some = some ms →
          yyyymm backInOctober ms ≤ p.1.activeYyyymm) ∧
        (p.2 = .lock i → p.1.arrived[i]?.bind some = some ms →
          ∃ before, backInOctober.Valid before ∧ before ≤ ms ∧
            p.1.activeYyyymm < yyyymm backInOctober before) := by
  have hrun : (trace (step (localMonths backInOctober fun _ ↦ none) some ⟨200, 10000⟩)
      (start (localMonths backInOctober fun _ ↦ none) some 1790805599999 .empty true)
      monthEnd).map (fun r ↦ (r.2.activeYyyymm, r.2.writer.queue,
        r.1.all fun p ↦ p.1.keepsUp backInOctober (fun _ ↦ none) some p.2)) =
        some (202610, [1790805600000, 1790805599999], true) := by
    decide +kernel
  obtain ⟨⟨tr, t⟩, hr, hs⟩ := Option.map_eq_some_iff.mp hrun
  simp only [Prod.mk.injEq] at hs
  obtain ⟨hmonth, hqueue, hok⟩ := hs
  exact ⟨tr, t, Path.of_trace hr, trace_labels hr, hmonth, hqueue,
    enqueued_in_time (LocalClock.repeats_putBack _ _ (by decide) (by decide)) (by decide)
      (Path.of_trace hr) (List.all_eq_true.mp hok)⟩

end Run

end QueQiao.ActiveMonth
