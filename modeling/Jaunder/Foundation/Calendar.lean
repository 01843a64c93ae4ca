import Mathlib.Tactic

namespace Foundation.Calendar

/-- Days from the epoch of the count, 1 March of year 0, to 1 March of year `y`. -/
def marchStart (y : ℤ) : ℤ := 365 * y + y / 4 - y / 100 + y / 400

def marchDays (day : ℤ) : ℤ := day + 719468

/-- The year that began on the last 1 March. The mean length of a year gives it up to one. -/
def marchYear (day : ℤ) : ℤ :=
  let z := marchDays day
  let y := 400 * z / 146097
  if marchStart (y + 1) ≤ z then y + 1 else if marchStart y ≤ z then y else y - 1

def dayOfYear (day : ℤ) : ℤ := marchDays day - marchStart (marchYear day)

def monthOfYear (day : ℤ) : ℤ := (5 * dayOfYear day + 2) / 153

/-- Months since January of year 0. -/
def monthIndex (day : ℤ) : ℤ := 12 * marchYear day + monthOfYear day + 2

def civilYear (day : ℤ) : ℤ := monthIndex day / 12

def civilMonth (day : ℤ) : ℤ := monthIndex day % 12 + 1

def civilDay (day : ℤ) : ℤ := dayOfYear day - (153 * monthOfYear day + 2) / 5 + 1

theorem marchYear_spec (day : ℤ) :
    marchStart (marchYear day) ≤ marchDays day ∧ marchDays day < marchStart (marchYear day + 1) := by
  unfold marchYear
  dsimp only
  split_ifs with hnext hthis
  · simp only [marchStart] at *
    omega
  · simp only [marchStart] at *
    omega
  · simp only [marchStart] at *
    omega

theorem dayOfYear_bounds (day : ℤ) : 0 ≤ dayOfYear day ∧ dayOfYear day ≤ 365 := by
  have h := marchYear_spec day
  simp only [marchStart] at h
  simp only [dayOfYear, marchStart]
  omega

theorem marchYear_mono {a b : ℤ} (h : a < b) : marchYear a ≤ marchYear b := by
  have ha := (marchYear_spec a).1
  have hb := (marchYear_spec b).2
  simp only [marchStart, marchDays] at ha hb
  omega

theorem monthOfYear_bounds (day : ℤ) : 0 ≤ monthOfYear day ∧ monthOfYear day ≤ 11 := by
  have h := dayOfYear_bounds day
  simp only [monthOfYear]
  omega

theorem civilMonth_bounds (day : ℤ) : 1 ≤ civilMonth day ∧ civilMonth day ≤ 12 := by
  simp only [civilMonth]
  omega

theorem civilDay_bounds (day : ℤ) : 1 ≤ civilDay day ∧ civilDay day ≤ 31 := by
  have h := dayOfYear_bounds day
  simp only [civilDay, monthOfYear]
  omega

theorem monthIndex_lt_or {a b : ℤ} (h : a < b) :
    monthIndex a < monthIndex b ∨ monthIndex a = monthIndex b ∧ civilDay a < civilDay b := by
  have hy := marchYear_mono h
  have ha := monthOfYear_bounds a
  have hb := monthOfYear_bounds b
  rcases hy.lt_or_eq with hlt | heq
  · left
    simp only [monthIndex]
    omega
  · have hday : dayOfYear a < dayOfYear b := by
      simp only [dayOfYear, marchDays, heq]
      omega
    simp only [monthIndex, civilDay, monthOfYear] at ha hb ⊢
    omega

/-- A later day has the lexicographically larger year, month and day. -/
theorem civil_lt {a b : ℤ} (h : a < b) :
    civilYear a < civilYear b ∨ civilYear a = civilYear b ∧
      (civilMonth a < civilMonth b ∨ civilMonth a = civilMonth b ∧ civilDay a < civilDay b) := by
  have hindex := monthIndex_lt_or h
  simp only [civilYear, civilMonth]
  omega

theorem civilYear_mono {a b : ℤ} (h : a ≤ b) : civilYear a ≤ civilYear b := by
  rcases h.lt_or_eq with hlt | rfl
  · rcases civil_lt hlt with hy | ⟨hy, -⟩
    · exact hy.le
    · exact hy.le
  · exact le_rfl

def isLeapYear (y : ℤ) : Bool := y % 4 = 0 ∧ (y % 100 ≠ 0 ∨ y % 400 = 0)

def daysInMonth (y month : ℤ) : ℤ :=
  if month = 2 then (if isLeapYear y then 29 else 28)
  else if month = 4 ∨ month = 6 ∨ month = 9 ∨ month = 11 then 30
  else 31

/-- A date of the proleptic Gregorian calendar. -/
structure IsDate (y month day : ℤ) : Prop where
  months : 1 ≤ month ∧ month ≤ 12
  days : 1 ≤ day ∧ day ≤ daysInMonth y month

/-- Days since 1 January 1970. -/
def daysFromCivil (y month day : ℤ) : ℤ :=
  let march := if month ≤ 2 then y - 1 else y
  let months := (month + 9) % 12
  marchStart march + (153 * months + 2) / 5 + (day - 1) - 719468

theorem daysFromCivil_civil (day : ℤ) :
    daysFromCivil (civilYear day) (civilMonth day) (civilDay day) = day := by
  have hmonth := monthOfYear_bounds day
  have hyear : (if civilMonth day ≤ 2 then civilYear day - 1 else civilYear day) = marchYear day := by
    simp only [civilMonth, civilYear, monthIndex]
    split_ifs <;> omega
  have hmonths : (civilMonth day + 9) % 12 = monthOfYear day := by
    simp only [civilMonth, monthIndex]
    omega
  simp only [daysFromCivil, hyear, hmonths]
  simp only [civilDay, dayOfYear, marchDays]
  omega

/-- The last day of the year that began in March is the one before the next 1 March. -/
theorem marchStart_succ (y : ℤ) :
    marchStart (y + 1) = marchStart y + (if isLeapYear (y + 1) then 366 else 365) := by
  simp only [marchStart, isLeapYear, decide_eq_true_eq]
  split_ifs with hleap <;> omega

theorem isDate_civil (day : ℤ) : IsDate (civilYear day) (civilMonth day) (civilDay day) := by
  refine ⟨civilMonth_bounds day, (civilDay_bounds day).1, ?_⟩
  have hspec := (marchYear_spec day).2
  have hmonth := monthOfYear_bounds day
  have hvalue : monthOfYear day = (5 * dayOfYear day + 2) / 153 := rfl
  have hday : civilDay day = dayOfYear day - (153 * monthOfYear day + 2) / 5 + 1 := rfl
  have hcivil : civilMonth day = (monthOfYear day + 2) % 12 + 1 := by
    simp only [civilMonth, monthIndex]
    omega
  by_cases hfebruary : monthOfYear day = 11
  · have hyear : civilYear day = marchYear day + 1 := by
      simp only [civilYear, monthIndex]
      omega
    have hlast : dayOfYear day < if isLeapYear (civilYear day) then 366 else 365 := by
      rw [marchStart_succ, ← hyear] at hspec
      simp only [dayOfYear]
      omega
    rw [hcivil, hfebruary, daysInMonth, if_pos (by decide)]
    split_ifs at hlast ⊢ <;> omega
  · rw [hcivil, daysInMonth, if_neg (by omega)]
    split_ifs with hshort <;> omega

end Foundation.Calendar
