import Mathlib.Tactic.Common
import Rowset.Calendar.Timestamp

/-!
# Counting days and seconds

`Date.dayNumber` counts the days of every year without gaps, so a supported day has a number between those of the
first and the last one (`Date.Valid.firstDay_le`, `Date.Valid.le_lastDay`).  A time on the clock of a supported day is
therefore in range without an offset, and in range with a part of an offset that it is in range with
(`Zoned.inRange_of_between`).
-/

namespace Rowset

namespace Date

theorem daysBefore_succ (year : Int) {month : Nat} (h : 1 ≤ month) :
    daysBefore year (month + 1) = daysBefore year month + daysIn year month := by
  obtain ⟨m, rfl⟩ := Nat.exists_eq_add_of_le' h
  rfl

theorem daysBefore_mono (year : Int) {m n : Nat} (hm : 1 ≤ m) (h : m ≤ n) :
    daysBefore year m ≤ daysBefore year n := by
  induction h with
  | refl => exact Nat.le_refl _
  | step hn ih =>
    rw [Nat.succ_eq_add_one, daysBefore_succ year (Nat.le_trans hm hn)]
    exact Nat.le_add_right_of_le ih

/-- The days of a whole year. -/
theorem daysBefore_thirteen (year : Int) : daysBefore year 13 = if isLeap year then 366 else 365 := by
  simp [daysBefore, daysIn]
  cases isLeap year <;> rfl

/-- The next year begins when all months of a year are over. -/
theorem daysBeforeYear_succ (year : Int) :
    daysBeforeYear (year + 1) = daysBeforeYear year + daysBefore year 13 := by
  have hleap : isLeap year = true ↔ year % 4 = 0 ∧ (year % 100 ≠ 0 ∨ year % 400 = 0) := by
    simp [isLeap]
  rw [daysBefore_thirteen]
  simp only [hleap, daysBeforeYear]
  split <;> omega

/-- Later years start later, through the leap year corrections and on both sides of year zero. -/
theorem daysBeforeYear_mono {y z : Int} (h : y ≤ z) : daysBeforeYear y ≤ daysBeforeYear z := by
  simp only [daysBeforeYear]
  omega

/-- The conditions under which year, month and day name a supported day. -/
structure Valid (d : Date) : Prop where
  firstYear_le : firstYear ≤ d.year
  le_lastYear : d.year ≤ lastYear
  month_pos : 1 ≤ d.month
  month_le : d.month ≤ 12
  day_pos : 1 ≤ d.day
  day_le : d.day ≤ daysIn d.year d.month

theorem isValid_iff {d : Date} : d.isValid = true ↔ d.Valid := by
  simp only [isValid, Bool.and_eq_true, decide_eq_true_eq]
  constructor
  · rintro ⟨⟨⟨⟨⟨h₁, h₂⟩, h₃⟩, h₄⟩, h₅⟩, h₆⟩
    exact ⟨h₁, h₂, h₃, h₄, h₅, h₆⟩
  · rintro ⟨h₁, h₂, h₃, h₄, h₅, h₆⟩
    exact ⟨⟨⟨⟨⟨h₁, h₂⟩, h₃⟩, h₄⟩, h₅⟩, h₆⟩

theorem Valid.day_le_31 {d : Date} (h : d.Valid) : d.day ≤ 31 := by
  refine Nat.le_trans h.day_le ?_
  unfold daysIn
  split_ifs <;> decide

/-- A day lies between the first of January of its year and that of the next. -/
theorem Valid.dayNumber_bounds {d : Date} (h : d.Valid) :
    daysBeforeYear d.year ≤ d.dayNumber + daysBeforeYear 1970 ∧
      d.dayNumber + daysBeforeYear 1970 < daysBeforeYear (d.year + 1) := by
  have hmonth : daysBefore d.year d.month + daysIn d.year d.month ≤ daysBefore d.year 13 := by
    rw [← daysBefore_succ _ h.month_pos]
    exact daysBefore_mono _ (Nat.le_add_left _ _) (Nat.succ_le_succ h.month_le)
  have := h.day_pos
  have := h.day_le
  rw [daysBeforeYear_succ]
  simp only [dayNumber]
  omega

theorem Valid.firstDay_le {d : Date} (h : d.Valid) : (⟨firstYear, 1, 1⟩ : Date).dayNumber ≤ d.dayNumber := by
  have hfirst : (⟨firstYear, 1, 1⟩ : Date).dayNumber = daysBeforeYear firstYear - daysBeforeYear 1970 := by decide
  have := daysBeforeYear_mono h.firstYear_le
  have := h.dayNumber_bounds.1
  omega

theorem Valid.le_lastDay {d : Date} (h : d.Valid) : d.dayNumber ≤ (⟨lastYear, 12, 31⟩ : Date).dayNumber := by
  have hlast : (⟨lastYear, 12, 31⟩ : Date).dayNumber = daysBeforeYear (lastYear + 1) - daysBeforeYear 1970 - 1 := by
    decide
  have := daysBeforeYear_mono (Int.add_le_add_right h.le_lastYear 1)
  have := h.dayNumber_bounds.2
  omega

end Date

namespace Timestamp

/-- A time of a supported day that stands on some clock; only second 59 has a leap second behind it. -/
structure Valid (t : Timestamp) : Prop where
  date : t.date.isValid
  hour : t.hour < 24
  minute : t.minute < 60
  second : t.second < 60
  nano : t.nano < nanosPerSecond ∨ t.second = 59 ∧ t.nano < 2 * nanosPerSecond

/-- A time is what is built from its written numbers. -/
theorem Valid.of?_eq {t : Timestamp} (h : t.Valid) :
    of? t.date t.hour t.minute (t.second + t.nano / nanosPerSecond) (t.nano % nanosPerSecond) = some t := by
  have hn : 0 < nanosPerSecond := by decide
  unfold of?
  rw [if_pos ⟨h.hour, h.minute, Nat.mod_lt _ hn⟩]
  by_cases hnano : t.nano < nanosPerSecond
  · rw [Nat.div_eq_of_lt hnano, Nat.mod_eq_of_lt hnano, Nat.add_zero, if_pos h.second]
  · obtain ⟨hsecond, hlt⟩ := h.nano.resolve_left hnano
    have hdiv : t.nano / nanosPerSecond = 1 := Nat.div_eq_of_lt_le (by omega) (by omega)
    have hmod : nanosPerSecond + t.nano % nanosPerSecond = t.nano := by
      have := Nat.div_add_mod t.nano nanosPerSecond
      rwa [hdiv, Nat.mul_one] at this
    rw [hdiv, hsecond, if_neg (by decide), if_pos rfl, hmod, ← hsecond]

/-- Second 60 is written for a leap second and is the last there is. -/
theorem Valid.second_le_60 {t : Timestamp} (h : t.Valid) : t.second + t.nano / nanosPerSecond ≤ 60 := by
  have := h.second
  rcases h.nano with hnano | ⟨hs, hnano⟩
  · rw [Nat.div_eq_of_lt hnano]
    omega
  · have : t.nano / nanosPerSecond < 2 := Nat.div_lt_of_lt_mul (by omega)
    omega

theorem Valid.secondOfDay_lt {t : Timestamp} (h : t.Valid) : t.secondOfDay < 86400 := by
  have := h.hour
  have := h.minute
  have := h.second
  simp only [secondOfDay]
  omega

end Timestamp

namespace Zoned

/-- The instants in range are those from the first second of the calendar to its last. -/
theorem inRange_iff {z : Zoned} : z.inRange = true ↔
    86400 * (⟨Date.firstYear, 1, 1⟩ : Date).dayNumber ≤ z.unixSeconds ∧
      z.unixSeconds < 86400 * ((⟨Date.lastYear, 12, 31⟩ : Date).dayNumber + 1) := by
  simp only [inRange, Bool.and_eq_true, decide_eq_true_eq]

/-- An offset that goes a part of the way to another one leads to an instant on the way. -/
theorem inRange_of_between {t : Timestamp} (ht : t.Valid) {o p : Int} (h : (⟨t, o⟩ : Zoned).inRange)
    (hp : 0 ≤ p ∧ p ≤ o ∨ o ≤ p ∧ p ≤ 0) : (⟨t, p⟩ : Zoned).inRange := by
  have hdate := Date.isValid_iff.mp ht.date
  have := hdate.firstDay_le
  have := hdate.le_lastDay
  have := ht.secondOfDay_lt
  rw [inRange_iff] at h ⊢
  simp only [unixSeconds, Timestamp.clockSeconds] at h ⊢
  omega

end Zoned
end Rowset
