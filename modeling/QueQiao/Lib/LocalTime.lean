import Mathlib.Algebra.Order.Ring.Int

namespace QueQiao.Lib.LocalTime

/-- A clock with any offset from UTC at each instant, in milliseconds. `earliest` is the first
instant at which it shows a given time, if there is one. -/
structure LocalClock where
  minMs : ℤ
  maxMs : ℤ
  offsetMs : ℤ → ℤ
  earliest : ℤ → Option ℤ
  earliest_eq_some : ∀ time ms, earliest time = some ms ↔
    (minMs ≤ ms ∧ ms ≤ maxMs ∧ ms + offsetMs ms = time) ∧
      ∀ other, minMs ≤ other ∧ other ≤ maxMs ∧ other + offsetMs other = time → ms ≤ other

def dayMs : ℤ := 86400000

namespace LocalClock

variable (clock : LocalClock)

def shows (ms : ℤ) : ℤ := ms + clock.offsetMs ms

def Valid (ms : ℤ) : Prop := clock.minMs ≤ ms ∧ ms ≤ clock.maxMs

instance (ms : ℤ) : Decidable (clock.Valid ms) := inferInstanceAs (Decidable (_ ∧ _))

def day (ms : ℤ) : ℤ := clock.shows ms / dayMs

/-- What the clock shows after it has been put back it has shown before. -/
def Repeats : Prop := ∀ now later, clock.Valid now → clock.Valid later → now < later →
  clock.shows later < clock.shows now →
    ∃ before, clock.Valid before ∧ before ≤ now ∧ clock.shows before = clock.shows later

def putBack (minMs maxMs changeMs offsetMs byMs : ℤ) : LocalClock where
  minMs := minMs
  maxMs := maxMs
  offsetMs := fun ms ↦ if ms < changeMs then offsetMs else offsetMs - byMs
  earliest := fun time ↦
    if minMs ≤ time - offsetMs ∧ time - offsetMs ≤ maxMs ∧ time - offsetMs < changeMs then
      some (time - offsetMs)
    else if minMs ≤ time - offsetMs + byMs ∧ time - offsetMs + byMs ≤ maxMs ∧
        changeMs ≤ time - offsetMs + byMs then
      some (time - offsetMs + byMs)
    else none
  earliest_eq_some := by
    intro time ms
    have hother := fun other ↦ show (minMs ≤ other ∧ other ≤ maxMs ∧
        other + (if other < changeMs then offsetMs else offsetMs - byMs) = time) ↔
        (minMs ≤ other ∧ other ≤ maxMs ∧ (other < changeMs ∧ other = time - offsetMs ∨
          changeMs ≤ other ∧ other = time - offsetMs + byMs)) by
      split <;> omega
    simp only [hother]
    split
    · rw [Option.some.injEq]
      constructor
      · rintro rfl
        exact ⟨by omega, fun other ho ↦ by omega⟩
      · intro h
        have hfirst := h.2 (time - offsetMs) (by omega)
        omega
    · split
      · rw [Option.some.injEq]
        constructor
        · rintro rfl
          exact ⟨by omega, fun other ho ↦ by omega⟩
        · intro h
          omega
      · exact iff_of_false nofun fun h ↦ by omega

theorem repeats_putBack {minMs changeMs byMs : ℤ} (maxMs offsetMs : ℤ) (hby : 0 ≤ byMs)
    (hmin : minMs ≤ changeMs - byMs) :
    (putBack minMs maxMs changeMs offsetMs byMs).Repeats := by
  intro now later hnow hlater hlt hback
  simp only [Valid, shows, putBack] at *
  refine ⟨later - byMs, ?_⟩
  split_ifs at hback ⊢ <;> omega

section Earliest

variable {clock} {time time' ms first first' : ℤ}

theorem earliest_spec (h : clock.earliest time = some first) :
    clock.Valid first ∧ clock.shows first = time ∧
      ∀ other, clock.Valid other → clock.shows other = time → first ≤ other := by
  obtain ⟨⟨hmin, hmax, htime⟩, hfirst⟩ := (clock.earliest_eq_some time first).mp h
  exact ⟨⟨hmin, hmax⟩, htime, fun other hvalid hother ↦ hfirst other ⟨hvalid.1, hvalid.2, hother⟩⟩

theorem shows_lt_of_lt (hrepeats : clock.Repeats) (h : clock.earliest time = some first)
    (hvalid : clock.Valid ms) (hlt : ms < first) : clock.shows ms < time := by
  obtain ⟨hfirst, htime, hleast⟩ := earliest_spec h
  by_contra hge
  rcases (not_lt.mp hge).lt_or_eq with hpast | heq
  · obtain ⟨before, hbefore, hle, hshows⟩ := hrepeats ms first hvalid hfirst hlt (htime ▸ hpast)
    have hearlier := hleast before hbefore (hshows.trans htime)
    omega
  · have hearlier := hleast ms hvalid heq.symm
    omega

theorem earliest_lt (hrepeats : clock.Repeats) (h : clock.earliest time = some first)
    (h' : clock.earliest time' = some first') (hlt : time < time') : first < first' := by
  obtain ⟨-, htime, -⟩ := earliest_spec h
  obtain ⟨hvalid', htime', -⟩ := earliest_spec h'
  rcases lt_trichotomy first first' with hless | heq | hgreater
  · exact hless
  · rw [heq, htime'] at htime
    omega
  · have hearlier := shows_lt_of_lt hrepeats h hvalid' hgreater
    omega

end Earliest

end LocalClock

end QueQiao.Lib.LocalTime
