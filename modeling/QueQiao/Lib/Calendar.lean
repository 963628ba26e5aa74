import Mathlib

namespace QueQiao.Lib.Calendar

/-! The Gregorian calendar. Days are counted from 1970-01-01, and months from January of the year 0:
the month with the number `k` is the month `k % 12 + 1` of the year `k / 12`. -/

def isLeap (year : ℤ) : Bool := year % 4 = 0 && (year % 100 ≠ 0 || year % 400 = 0)

def leapsBefore (year : ℤ) : ℤ := (year - 1) / 4 - (year - 1) / 100 + (year - 1) / 400

def yearStart (year : ℤ) : ℤ := 365 * (year - 1970) + (leapsBefore year - leapsBefore 1970)

def leapDay (year : ℤ) : ℤ := if isLeap year then 1 else 0

/-- The days of a year that come before one of its months, which are counted from zero. From March
on, five months have 153 days. -/
def daysBefore (year month : ℤ) : ℤ :=
  if month = 0 then 0
  else if month = 1 then 31
  else 59 + leapDay year + (153 * (month - 2) + 2) / 5

example : (List.range 13).map (fun month : ℕ ↦ daysBefore 2023 month) =
    [0, 31, 59, 90, 120, 151, 181, 212, 243, 273, 304, 334, 365] := by decide

def monthStart (k : ℤ) : ℤ := yearStart (k / 12) + daysBefore (k / 12) (k % 12)

theorem leapDay_cases (year : ℤ) : leapDay year = 0 ∨ leapDay year = 1 := by
  rw [leapDay]
  split
  · exact .inr rfl
  · exact .inl rfl

theorem yearStart_succ (year : ℤ) : yearStart (year + 1) = yearStart year + 365 + leapDay year := by
  have hleap : leapsBefore (year + 1) = leapsBefore year + leapDay year := by
    simp only [leapsBefore, leapDay, isLeap, Bool.and_eq_true, Bool.or_eq_true, decide_eq_true_eq]
    split <;> omega
  rw [yearStart, yearStart, hleap]
  omega

theorem daysBefore_succ (year : ℤ) {month : ℤ} (h : 0 ≤ month) (h' : month < 12) :
    daysBefore year month + 28 ≤ daysBefore year (month + 1) := by
  have hleap := leapDay_cases year
  simp only [daysBefore]
  split_ifs <;> omega

theorem monthStart_succ (k : ℤ) : monthStart k + 28 ≤ monthStart (k + 1) := by
  have hmonth := daysBefore_succ (k / 12) (Int.emod_nonneg k (by decide : (12 : ℤ) ≠ 0))
    (Int.emod_lt_of_pos k (by decide))
  rcases eq_or_ne (k % 12) 11 with hlast | hother
  · have hyear : (k + 1) / 12 = k / 12 + 1 := by omega
    have hfirst : (k + 1) % 12 = 0 := by omega
    have hdecember : daysBefore (k / 12) (11 + 1) = 59 + leapDay (k / 12) + 306 := rfl
    have hjanuary : daysBefore (k / 12 + 1) 0 = 0 := rfl
    rw [hlast, hdecember] at hmonth
    rw [monthStart, monthStart, hyear, hfirst, yearStart_succ, hjanuary, hlast]
    omega
  · have hyear : (k + 1) / 12 = k / 12 := by omega
    have hnext : (k + 1) % 12 = k % 12 + 1 := by omega
    rw [monthStart, monthStart, hyear, hnext]
    omega

theorem monthStart_strictMono : StrictMono monthStart :=
  strictMono_int_of_lt_succ fun k ↦ by
    have hsucc := monthStart_succ k
    omega

theorem monthStart_near (k : ℤ) :
    4800 * monthStart k ≤ 146097 * (k - 23640) + 48000 ∧
      146097 * (k - 23640) ≤ 4800 * monthStart k + 48000 := by
  have hleap := leapDay_cases (k / 12)
  have hbounds : 0 ≤ k % 12 ∧ k % 12 < 12 := by omega
  have hsplit : k = 12 * (k / 12) + k % 12 := by omega
  have hyear : leapsBefore 1970 = 477 := rfl
  rw [monthStart, yearStart, hyear, leapsBefore, daysBefore]
  generalize k / 12 = year at *
  generalize k % 12 = month at *
  subst hsplit
  split_ifs <;> omega

/-- The number of the month of a day: the one that it would have if all months had the same length,
or one beside that. -/
def monthOf (day : ℤ) : ℤ :=
  let k := 4800 * day / 146097 + 23640
  if day < monthStart k then k - 1 else if day < monthStart (k + 1) then k else k + 1

theorem monthOf_spec (day : ℤ) :
    monthStart (monthOf day) ≤ day ∧ day < monthStart (monthOf day + 1) := by
  have hbelow := monthStart_near (4800 * day / 146097 + 23640 - 1)
  have habove := monthStart_near (4800 * day / 146097 + 23640 + 1 + 1)
  rw [monthOf]
  split_ifs with hless hless'
  · rw [Int.sub_add_cancel]
    omega
  · omega
  · omega

theorem le_monthOf_iff {day k : ℤ} : k ≤ monthOf day ↔ monthStart k ≤ day := by
  obtain ⟨hle, hlt⟩ := monthOf_spec day
  constructor
  · exact fun h ↦ (monthStart_strictMono.monotone h).trans hle
  · intro h
    have hk := monthStart_strictMono.lt_iff_lt.mp (h.trans_lt hlt)
    omega

example : monthOf 0 = 1970 * 12 := by decide

example : monthStart (2024 * 12 + 2) - monthStart (2024 * 12 + 1) = 29 := by decide

end QueQiao.Lib.Calendar
