/-
  Calendar — the proleptic Gregorian calendar by eras of 400 years.

  A year is counted from March, so that the leap day is its last.  An era has 146097 days: four
  centuries of 36524 days, whose quadrennia have 1461 and whose years have 365, with one day over
  at the end of a leap year.  `split_day` takes the day of an era apart that way, once; the year
  formula that divides by 1460, 36524 and 146096 is then checked on the parts (`year_of_day`), and
  the month formula on the day of the year (`month_of_day`).
-/
import Mathlib.Data.Int.Order.Basic

namespace DjangoFlaskKafka.Calendar

/-! ## The calendar -/

def IsLeap (year : Int) : Prop := year % 4 = 0 ∧ (year % 100 ≠ 0 ∨ year % 400 = 0)

instance (year : Int) : Decidable (IsLeap year) := inferInstanceAs (Decidable (_ ∧ _))

def daysInMonth (year month : Int) : Int :=
  if month = 2 then if IsLeap year then 29 else 28
  else if month = 4 ∨ month = 6 ∨ month = 9 ∨ month = 11 then 30
  else 31

/-- The days from 1970-01-01 to a date. -/
def daysFromCivil (year month day : Int) : Int :=
  let y := if month ≤ 2 then year - 1 else year
  let mp := if month ≤ 2 then month + 9 else month - 3
  let doy := (153 * mp + 2) / 5 + day - 1
  y / 400 * 146097 + (y % 400 * 365 + y % 400 / 4 - y % 400 / 100 + doy) - 719468

/-- The date is one of the calendar. -/
structure Valid (year month day : Int) : Prop where
  months : 1 ≤ month ∧ month ≤ 12
  days : 1 ≤ day ∧ day ≤ daysInMonth year month

instance (year month day : Int) : Decidable (Valid year month day) :=
  decidable_of_iff ((1 ≤ month ∧ month ≤ 12) ∧ 1 ≤ day ∧ day ≤ daysInMonth year month)
    ⟨fun h => ⟨h.1, h.2⟩, fun h => ⟨h.months, h.days⟩⟩

/-! ## The day of an era -/

/-- The parts of the day of an era: century, quadrennium, year, day. -/
structure Parts (c q a r : Int) : Prop where
  century : 0 ≤ c ∧ c ≤ 3
  quadrennium : 0 ≤ q ∧ q ≤ 24
  year : 0 ≤ a ∧ a ≤ 3
  day : 0 ≤ r ∧ r ≤ 365
  leap : r = 365 → a = 3 ∧ (q < 24 ∨ c = 3)

theorem split_day {doe : Int} (h : 0 ≤ doe ∧ doe < 146097) :
    ∃ c q a r, Parts c q a r ∧ doe = 36524 * c + 1461 * q + 365 * a + r := by
  obtain ⟨c, hc, hrest⟩ : ∃ c, (0 ≤ c ∧ c ≤ 3) ∧ 0 ≤ doe - 36524 * c ∧
      (doe - 36524 * c < 36524 ∨ c = 3 ∧ doe - 36524 * c = 36524) :=
    ⟨min (doe / 36524) 3, by omega, by omega, by omega⟩
  obtain ⟨q, hq, hrest'⟩ : ∃ q, (0 ≤ q ∧ q ≤ 24) ∧ 0 ≤ doe - 36524 * c - 1461 * q ∧
      doe - 36524 * c - 1461 * q < 1461 :=
    ⟨(doe - 36524 * c) / 1461, by omega, by omega, by omega⟩
  obtain ⟨a, ha, hrest''⟩ : ∃ a, (0 ≤ a ∧ a ≤ 3) ∧ 0 ≤ doe - 36524 * c - 1461 * q - 365 * a ∧
      (doe - 36524 * c - 1461 * q - 365 * a < 365 ∨
        a = 3 ∧ doe - 36524 * c - 1461 * q - 365 * a = 365) :=
    ⟨min ((doe - 36524 * c - 1461 * q) / 365) 3, by omega, by omega, by omega⟩
  exact ⟨c, q, a, doe - 36524 * c - 1461 * q - 365 * a, ⟨hc, hq, ha, by omega, by omega⟩, by omega⟩

/-- The quotients of the year formula are one too large only on the last days of a part, which is
    what the formula makes up for. -/
theorem year_of_day {c q a r doe : Int} (h : Parts c q a r)
    (hdoe : doe = 36524 * c + 1461 * q + 365 * a + r) :
    (doe - doe / 1460 + doe / 36524 - doe / 146096) / 365 = 100 * c + 4 * q + a := by
  obtain ⟨hc, hq, ha, hr, hleap⟩ := h
  have hcentury : doe / 36524 = c ∨
      (c = 3 ∧ q = 24 ∧ a = 3 ∧ r = 365) ∧ doe / 36524 = 4 := by omega
  have hera : doe / 146096 = 0 ∨
      (c = 3 ∧ q = 24 ∧ a = 3 ∧ r = 365) ∧ doe / 146096 = 1 := by omega
  have hquadrennium : doe / 1460 = 25 * c + q ∨
      doe / 1460 = 25 * c + q + 1 ∧ 1460 ≤ 24 * c + q + 365 * a + r := by omega
  omega

/-- The day of the year, which counts from March. -/
theorem day_of_year {c q a r doe : Int} (h : Parts c q a r)
    (hdoe : doe = 36524 * c + 1461 * q + 365 * a + r) :
    let yoe := 100 * c + 4 * q + a
    doe - (365 * yoe + yoe / 4 - yoe / 100) = r ∧ 0 ≤ yoe ∧ yoe < 400 ∧
      (r = 365 → IsLeap (yoe + 1)) := by
  obtain ⟨hc, hq, ha, hr, hleap⟩ := h
  refine ⟨by omega, by omega, by omega, fun hlast => ?_⟩
  have := hleap hlast
  unfold IsLeap
  omega

/-- A leap year comes back after 400 years. -/
theorem isLeap_add_era (year era : Int) : IsLeap (year + era * 400) ↔ IsLeap year := by
  unfold IsLeap
  omega

/-- The month and the day that the formula finds for a day of a year are of the calendar. -/
theorem month_of_day {year doy : Int} (h : 0 ≤ doy ∧ doy ≤ 365)
    (hleap : doy = 365 → IsLeap (year + 1)) :
    let mp := (5 * doy + 2) / 153
    let month := if mp < 10 then mp + 3 else mp - 9
    Valid (year + if month ≤ 2 then 1 else 0) month (doy - (153 * mp + 2) / 5 + 1) := by
  intro mp month
  have hmp : mp = 0 ∨ mp = 1 ∨ mp = 2 ∨ mp = 3 ∨ mp = 4 ∨ mp = 5 ∨ mp = 6 ∨ mp = 7 ∨ mp = 8 ∨
      mp = 9 ∨ mp = 10 ∨ mp = 11 := by omega
  refine ⟨by omega, by omega, ?_⟩
  unfold daysInMonth
  by_cases hfebruary : mp = 11
  · rw [if_pos (by omega), if_pos (show month ≤ 2 by omega)]
    by_cases hyear : IsLeap (year + 1)
    · rw [if_pos hyear]
      omega
    · have hlast := mt hleap hyear
      rw [if_neg hyear]
      omega
  · rw [if_neg (by omega)]
    split <;> omega

/-- The days to a date that is given by its era, its year and its month from March. -/
theorem daysFromCivil_march {era yoe mp : Int} (hyoe : 0 ≤ yoe ∧ yoe < 400) (hmp : 0 ≤ mp ∧ mp < 12)
    (day : Int) :
    let month := if mp < 10 then mp + 3 else mp - 9
    daysFromCivil (yoe + era * 400 + if month ≤ 2 then 1 else 0) month day
      = era * 146097 + (365 * yoe + yoe / 4 - yoe / 100 + ((153 * mp + 2) / 5 + day - 1)) - 719468 := by
  intro month
  have hera : (yoe + era * 400) / 400 = era := by omega
  have hrest : (yoe + era * 400) % 400 = yoe := by omega
  have hyear : (if month ≤ 2 then (yoe + era * 400 + if month ≤ 2 then 1 else 0) - 1
      else yoe + era * 400 + if month ≤ 2 then 1 else 0) = yoe + era * 400 := by
    split <;> omega
  have hmonth : (if month ≤ 2 then month + 9 else month - 3) = mp := by
    by_cases h : mp < 10
    · rw [show month = mp + 3 from if_pos h, if_neg (by omega)]
      omega
    · rw [show month = mp - 9 from if_neg h, if_pos (by omega)]
      omega
  unfold daysFromCivil
  dsimp only
  rw [hyear, hmonth, hera, hrest]
  omega

end DjangoFlaskKafka.Calendar
