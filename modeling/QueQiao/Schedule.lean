import QueQiao.Handlers.ErrorLog
import QueQiao.Lib.Calendar
import QueQiao.Lib.LocalTime
import QueQiao.Lib.Transition

namespace QueQiao.Schedule

open Lib.Transition Lib.Calendar Lib.LocalTime ErrorLogApi

/-- `str::parse` for `u32`: a plus or none, and then digits. -/
def parseU32 (s : Text) : Option ℕ :=
  let digits := match s with
    | '+' :: rest => rest
    | _ => s
  if digits ≠ [] ∧ digits.all Char.isDigit then
    let n : ℕ := digits.foldl (fun n c ↦ 10 * n + (c.toNat - '0'.toNat)) 0
    if n < 2 ^ 32 then some n else none
  else none

def parseHhmm (value : Text) : Option (ℕ × ℕ) :=
  let value := trim value
  if value = [] ∨ value.map Char.toLower = "off".toList then none
  else
    (splitOnceChar ':' value).bind fun (hour, minute) ↦
      (parseU32 (trim hour)).bind fun hour ↦
        (parseU32 (trim minute)).bind fun minute ↦
          if hour < 24 ∧ minute < 60 then some (hour, minute) else none

def lastDay : ℤ := monthStart (12 * 262143) - 1

variable (clock : LocalClock) (hour minute : ℕ)

/-- When the clock first shows `hour:minute` on a day. -/
def slot (day : ℤ) : Option ℤ :=
  clock.earliest (day * dayMs + (hour * 3600000 + minute * 60000))

def nextOf (nowMs day : ℤ) : List ℤ → Option ℤ
  | [] => none
  | offset :: offsets =>
    if lastDay < day + offset ∨ ¬(hour < 24 ∧ minute < 60) then none
    else
      match slot clock hour minute (day + offset) with
      | none => nextOf nowMs day offsets
      | some ms => if nowMs < ms then some ms else nextOf nowMs day offsets

def nextDailyAfter (nowMs : ℤ) : Option ℤ :=
  if clock.Valid nowMs then nextOf clock hour minute nowMs (clock.day nowMs) [0, 1, 2] else none

/-- Where the task that optimizes once a day is in its loop. While it plans, `slept` is the slot
that its last sleep was for. -/
inductive Task
  | planning (slept : Option ℤ)
  | waiting (next : ℤ)
  | stopped
  deriving DecidableEq, Repr

inductive Event
  | plan (nowMs : ℤ)
  | wake
  deriving DecidableEq, Repr

def step : Task → Event → Option Task
  | .planning _, .plan nowMs =>
    match nextDailyAfter clock hour minute nowMs with
    | some next => some (.waiting next)
    | none => some .stopped
  | .waiting next, .wake => some (.planning (some next))
  | _, _ => none

def Task.next : Task → Option ℤ
  | .waiting next => some next
  | _ => none

def optimized (tr : List (Task × Event)) : List ℤ := tr.filterMap (·.1.next)

def onTime : Task → Event → Bool
  | .planning (some slept), .plan nowMs => slept ≤ nowMs
  | _, _ => true

section Slots

variable {clock hour minute} {day day' ms ms' nowMs next : ℤ}

theorem slot_lt (hrepeats : clock.Repeats) (h : slot clock hour minute day = some ms)
    (h' : slot clock hour minute day' = some ms') (hlt : day < day') : ms < ms' := by
  refine LocalClock.earliest_lt hrepeats h h' ?_
  rw [dayMs]
  omega

theorem slot_le_of_day_lt (hrepeats : clock.Repeats) (hhour : hour < 24) (hminute : minute < 60)
    (hnow : clock.Valid nowMs) (h : slot clock hour minute day = some ms)
    (hlt : day < clock.day nowMs) : ms ≤ nowMs := by
  by_contra hless
  have hshows := LocalClock.shows_lt_of_lt hrepeats h hnow (not_le.mp hless)
  rw [LocalClock.day, dayMs] at hlt
  rw [dayMs] at hshows
  omega

theorem nextOf_spec (hrepeats : clock.Repeats) {offsets : List ℤ}
    (hsorted : offsets.Pairwise (· < ·))
    (h : nextOf clock hour minute nowMs day offsets = some next) :
    nowMs < next ∧ (∃ offset ∈ offsets, slot clock hour minute (day + offset) = some next) ∧
      ∀ offset ∈ offsets, ∀ ms, slot clock hour minute (day + offset) = some ms → nowMs < ms →
        next ≤ ms := by
  induction offsets with
  | nil => cases h
  | cons offset offsets ih =>
    obtain ⟨hfirst, hrest⟩ := List.pairwise_cons.mp hsorted
    have hlater : nextOf clock hour minute nowMs day offsets = some next →
        (∀ ms, slot clock hour minute (day + offset) = some ms → ms ≤ nowMs) →
        nowMs < next ∧
          (∃ o ∈ offset :: offsets, slot clock hour minute (day + o) = some next) ∧
          ∀ o ∈ offset :: offsets, ∀ ms, slot clock hour minute (day + o) = some ms → nowMs < ms →
            next ≤ ms := by
      intro hnext hpast
      obtain ⟨hlt, ⟨o, ho, hslot⟩, hleast⟩ := ih hrest hnext
      refine ⟨hlt, ⟨o, List.mem_cons_of_mem _ ho, hslot⟩, fun o' ho' ms hms hnow ↦ ?_⟩
      rcases List.mem_cons.mp ho' with rfl | ho'
      · exact absurd (hpast ms hms) (not_le.mpr hnow)
      · exact hleast o' ho' ms hms hnow
    rw [nextOf] at h
    split at h
    · cases h
    · split at h
      · rename_i hnone
        exact hlater h fun ms hms ↦ by cases hnone.symm.trans hms
      · rename_i ms hslot
        split at h
        · rename_i hlt
          obtain rfl := Option.some.inj h
          refine ⟨hlt, ⟨offset, List.mem_cons_self, hslot⟩, fun o ho ms' hms' _ ↦ ?_⟩
          rcases List.mem_cons.mp ho with rfl | ho
          · exact (Option.some.inj (hslot.symm.trans hms')).le
          · have hless := hfirst o ho
            exact (slot_lt hrepeats hslot hms' (by omega)).le
        · rename_i hle
          refine hlater h fun ms' hms' ↦ ?_
          obtain rfl := Option.some.inj (hslot.symm.trans hms')
          exact not_lt.mp hle

theorem nextDailyAfter_spec (hrepeats : clock.Repeats) (hhour : hour < 24) (hminute : minute < 60)
    (h : nextDailyAfter clock hour minute nowMs = some next) :
    nowMs < next ∧ (∃ day, slot clock hour minute day = some next) ∧
      ∀ day ms, slot clock hour minute day = some ms → nowMs < ms → next ≤ ms := by
  obtain ⟨hvalid, hnext⟩ := Option.ite_none_right_eq_some.mp h
  obtain ⟨hlt, ⟨offset, hoffset, hslot⟩, hleast⟩ := nextOf_spec hrepeats (by decide) hnext
  refine ⟨hlt, ⟨_, hslot⟩, fun day ms hms hnow ↦ ?_⟩
  by_cases hpast : day < clock.day nowMs
  · have hle := slot_le_of_day_lt hrepeats hhour hminute hvalid hms hpast
    omega
  · by_cases hnear : day ≤ clock.day nowMs + 2
    · refine hleast (day - clock.day nowMs) ?_ ms (by rwa [add_sub_cancel]) hnow
      simp only [List.mem_cons, List.not_mem_nil, or_false]
      omega
    · simp only [List.mem_cons, List.not_mem_nil, or_false] at hoffset
      exact (slot_lt hrepeats hslot hms (by omega)).le

end Slots

theorem lt_of_parseHhmm {value : Text} {hour minute : ℕ}
    (h : parseHhmm value = some (hour, minute)) : hour < 24 ∧ minute < 60 := by
  obtain ⟨-, h⟩ := Option.ite_none_left_eq_some.mp h
  obtain ⟨parts, -, h⟩ := Option.bind_eq_some_iff.mp h
  obtain ⟨hour', -, h⟩ := Option.bind_eq_some_iff.mp h
  obtain ⟨minute', -, h⟩ := Option.bind_eq_some_iff.mp h
  obtain ⟨hlt, h⟩ := Option.ite_none_right_eq_some.mp h
  obtain ⟨rfl, rfl⟩ := Prod.mk.inj (Option.some.inj h)
  exact hlt

/-- A slot that was optimized in, or that has passed between the one before it and the time at which
the task planned again. -/
def Accounted (tr : List (Task × Event)) (ms : ℤ) : Prop :=
  ms ∈ optimized tr ∨ ∃ slept nowMs, (Task.planning (some slept), Event.plan nowMs) ∈ tr ∧
    slept < ms ∧ ms ≤ nowMs

def IsSlot (ms : ℤ) : Prop := ∃ day, slot clock hour minute day = some ms

structure Daily (tr : List (Task × Event)) (t : Task) : Prop where
  sorted : (optimized tr).Pairwise (· < ·)
  slots : ∀ ms ∈ optimized tr, IsSlot clock hour minute ms
  between : ∀ first ∈ optimized tr, ∀ last ∈ optimized tr, ∀ ms, IsSlot clock hour minute ms →
    first < ms → ms < last → Accounted tr ms
  planning : ∀ slept, t = .planning slept → ∀ ms ∈ optimized tr,
    ∃ last, slept = some last ∧ last ∈ optimized tr ∧ ms ≤ last
  waiting : ∀ next, t = .waiting next → IsSlot clock hour minute next ∧
    (∀ ms ∈ optimized tr, ms < next) ∧ ∀ first ∈ optimized tr, ∀ ms, IsSlot clock hour minute ms →
      first < ms → ms < next → Accounted tr ms

section Loop

variable {clock hour minute} {tr : List (Task × Event)} {t : Task} {nowMs next ms : ℤ}
  {slept : Option ℤ}

theorem Accounted.append (h : Accounted tr ms) (tr' : List (Task × Event)) :
    Accounted (tr ++ tr') ms := by
  rcases h with h | ⟨slept, nowMs, hmem, hspan⟩
  · left
    rw [optimized, List.filterMap_append]
    exact List.mem_append_left _ h
  · exact .inr ⟨slept, nowMs, List.mem_append_left _ hmem, hspan⟩

theorem optimized_plan : optimized (tr ++ [(.planning slept, .plan nowMs)]) = optimized tr := by
  rw [optimized, List.filterMap_append]
  exact List.append_nil _

theorem optimized_wake : optimized (tr ++ [(.waiting next, .wake)]) = optimized tr ++ [next] := by
  rw [optimized, List.filterMap_append]
  rfl

theorem Daily.stop (h : Daily clock hour minute tr (.planning slept)) :
    Daily clock hour minute (tr ++ [(.planning slept, .plan nowMs)]) .stopped where
  sorted := by rw [optimized_plan]; exact h.sorted
  slots := by rw [optimized_plan]; exact h.slots
  between := by
    rw [optimized_plan]
    exact fun first hfirst last hlast ms hslot hlt hlt' ↦
      (h.between first hfirst last hlast ms hslot hlt hlt').append _
  planning := nofun
  waiting := nofun

theorem Daily.plan (h : Daily clock hour minute tr (.planning slept)) (hrepeats : clock.Repeats)
    (hhour : hour < 24) (hminute : minute < 60)
    (hon : onTime (.planning slept) (.plan nowMs) = true)
    (hnext : nextDailyAfter clock hour minute nowMs = some next) :
    Daily clock hour minute (tr ++ [(.planning slept, .plan nowMs)]) (.waiting next) := by
  obtain ⟨hahead, hslot, hleast⟩ := nextDailyAfter_spec hrepeats hhour hminute hnext
  refine { h.stop with planning := nofun, waiting := fun ms heq ↦ ?_ }
  obtain rfl := Task.waiting.inj heq
  rw [optimized_plan]
  refine ⟨hslot, fun ms hms ↦ ?_, fun first hfirst ms hms hlt hlt' ↦ ?_⟩
  · obtain ⟨last, rfl, -, hle⟩ := h.planning slept rfl ms hms
    have hnow : last ≤ nowMs := of_decide_eq_true hon
    omega
  · obtain ⟨last, rfl, hlast, -⟩ := h.planning slept rfl first hfirst
    obtain ⟨day, hday⟩ := hms
    have hpast : ms ≤ nowMs := by
      by_contra hless
      have hle := hleast day ms hday (not_le.mp hless)
      omega
    rcases lt_trichotomy ms last with hless | rfl | hgreater
    · exact (h.between first hfirst last hlast ms ⟨day, hday⟩ hlt hless).append _
    · exact Accounted.append (.inl hlast) _
    · exact .inr ⟨last, nowMs, List.mem_append_right _ (List.mem_singleton_self _), hgreater, hpast⟩

theorem Daily.wake (h : Daily clock hour minute tr (.waiting next)) :
    Daily clock hour minute (tr ++ [(.waiting next, .wake)]) (.planning (some next)) := by
  obtain ⟨hslot, hlast, hbetween⟩ := h.waiting next rfl
  have hmem : ∀ ms ∈ optimized (tr ++ [(.waiting next, .wake)]), ms ∈ optimized tr ∨ ms = next := by
    intro ms hms
    rw [optimized_wake] at hms
    exact (List.mem_append.mp hms).imp_right List.mem_singleton.mp
  have hnext : next ∈ optimized (tr ++ [(.waiting next, .wake)]) := by
    rw [optimized_wake]
    exact List.mem_append_right _ (List.mem_singleton_self _)
  refine ⟨?_, fun ms hms ↦ ?_, fun first hfirst last hlast' ms hms hlt hlt' ↦ ?_,
    fun slept heq ms hms ↦ ?_, nofun⟩
  · rw [optimized_wake]
    exact List.pairwise_append.mpr ⟨h.sorted, List.pairwise_singleton _ _, fun ms hms _ heq ↦
      List.mem_singleton.mp heq ▸ hlast ms hms⟩
  · rcases hmem ms hms with hms | rfl
    · exact h.slots ms hms
    · exact hslot
  · rcases hmem first hfirst with hold | rfl
    · rcases hmem last hlast' with hold' | rfl
      · exact (h.between first hold last hold' ms hms hlt hlt').append _
      · exact (hbetween first hold ms hms hlt hlt').append _
    · rcases hmem last hlast' with hold' | rfl
      · have hless := hlast last hold'
        omega
      · omega
  · obtain rfl := Task.planning.inj heq
    refine ⟨next, rfl, hnext, ?_⟩
    rcases hmem ms hms with hms | rfl
    · exact (hlast ms hms).le
    · exact le_rfl

theorem daily_run (hrepeats : clock.Repeats) (hhour : hour < 24) (hminute : minute < 60)
    (h : Path (step clock hour minute) (.planning none) tr t)
    (hon : ∀ p ∈ tr, onTime p.1 p.2 = true) : Daily clock hour minute tr t := by
  induction h with
  | nil => exact ⟨.nil, nofun, nofun, nofun, nofun⟩
  | @snoc tr s t e _ hs ih =>
    have hbefore := ih fun p hp ↦ hon p (List.mem_append_left _ hp)
    have hlast := hon (s, e) (List.mem_append_right _ (List.mem_singleton_self _))
    cases s with
    | planning slept =>
      cases e with
      | plan nowMs =>
        simp only [step] at hs
        split at hs
        · rename_i next hnext
          obtain rfl := Option.some.inj hs
          exact hbefore.plan hrepeats hhour hminute hlast hnext
        · obtain rfl := Option.some.inj hs
          exact hbefore.stop
      | wake => cases hs
    | waiting next =>
      cases e with
      | plan nowMs => cases hs
      | wake =>
        obtain rfl := Option.some.inj hs
        exact hbefore.wake
    | stopped => cases e <;> cases hs

/-- The task optimizes at most once for each day, when the clock first shows the time, and leaves
out only days whose time comes while it still optimizes. -/
theorem optimized_daily {value : Text} (hvalue : parseHhmm value = some (hour, minute))
    (hrepeats : clock.Repeats) (h : Path (step clock hour minute) (.planning none) tr t)
    (hon : ∀ p ∈ tr, onTime p.1 p.2 = true) :
    (optimized tr).Pairwise (· < ·) ∧ (∀ ms ∈ optimized tr, IsSlot clock hour minute ms) ∧
      ∀ first ∈ optimized tr, ∀ last ∈ optimized tr, ∀ ms, IsSlot clock hour minute ms →
        first < ms → ms < last → Accounted tr ms := by
  obtain ⟨hhour, hminute⟩ := lt_of_parseHhmm hvalue
  have hdaily := daily_run hrepeats hhour hminute h hon
  exact ⟨hdaily.sorted, hdaily.slots, hdaily.between⟩

def winterTime : LocalClock := .putBack 0 (2 ^ 50) 1792890000000 7200000 3600000

theorem optimized_daily_winterTime : ∃ tr t,
    Path (step winterTime 2 30) (.planning none) tr t ∧
      optimized tr = [1792888200000, 1792978200000, 1793151000000] ∧
      ((optimized tr).Pairwise (· < ·) ∧ (∀ ms ∈ optimized tr, IsSlot winterTime 2 30 ms) ∧
        ∀ first ∈ optimized tr, ∀ last ∈ optimized tr, ∀ ms, IsSlot winterTime 2 30 ms →
          first < ms → ms < last → Accounted tr ms) := by
  have hrun : (trace (step winterTime 2 30) (.planning none)
      [.plan 1792836000000, .wake, .plan 1792888200000, .wake, .plan 1793064600001, .wake]).map
        (fun r ↦ (optimized r.1, r.1.all fun p ↦ onTime p.1 p.2)) =
      some ([1792888200000, 1792978200000, 1793151000000], true) := by
    decide +kernel
  obtain ⟨⟨tr, t⟩, hr, hs⟩ := Option.map_eq_some_iff.mp hrun
  obtain ⟨hoptimized, hon⟩ := Prod.mk.inj hs
  have hvalue : parseHhmm " 02:30".toList = some (2, 30) := by decide +kernel
  exact ⟨tr, t, Path.of_trace hr, hoptimized, optimized_daily hvalue
    (LocalClock.repeats_putBack _ _ (by decide) (by decide)) (Path.of_trace hr)
      (List.all_eq_true.mp hon)⟩

end Loop

end QueQiao.Schedule
