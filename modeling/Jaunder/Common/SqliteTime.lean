import Jaunder.Common.Time
import Jaunder.Foundation.Calendar
import Jaunder.Foundation.Decimal

namespace Jaunder.Common.SqliteTime

open Foundation.Calendar Foundation.Decimal
open Jaunder.Common.Time

def epochDay (t : UtcInstant) : ℤ := t.nanos / (86400 * nanosPerSecond)

def secondOfDay (t : UtcInstant) : ℕ := (t.nanos / nanosPerSecond % 86400).toNat

def subsecond (t : UtcInstant) : ℕ := (t.nanos % nanosPerSecond).toNat

/-- The UTC civil year of an instant. -/
def year (t : UtcInstant) : ℤ := civilYear (epochDay t)

def fractionalWidth (t : UtcInstant) : ℕ :=
  let nanos := t.subsecNanosecond.natAbs
  if nanos = 0 then 0 else if nanos % 1000000 = 0 then 3 else if nanos % 1000 = 0 then 6 else 9

/-- Years before year 0 have a sign and six digits. -/
def yearText (y : ℤ) : List Char :=
  if 0 ≤ y then digits 4 y.toNat else '-' :: digits 6 (-y).toNat

def afterYear (t : UtcInstant) : List Char :=
  '-' :: (digits 2 (civilMonth (epochDay t)).toNat ++
    '-' :: (digits 2 (civilDay (epochDay t)).toNat ++
      'T' :: (digits 2 (secondOfDay t / 3600) ++
        ':' :: (digits 2 (secondOfDay t / 60 % 60) ++
          ':' :: (digits 2 (secondOfDay t % 60) ++
            (fraction 9 (fractionalWidth t) (subsecond t) ++ ['+', '0', '0', ':', '0', '0']))))))

/-- The text that an instant is bound as on SQLite, where timestamp columns compare as text. -/
def sqliteText (t : UtcInstant) : List Char := yearText (year t) ++ afterYear t

/-- What the column default `CURRENT_TIMESTAMP` writes. -/
def currentTimestamp (t : UtcInstant) : List Char :=
  yearText (year t) ++ '-' :: (digits 2 (civilMonth (epochDay t)).toNat ++
    '-' :: (digits 2 (civilDay (epochDay t)).toNat ++
      ' ' :: (digits 2 (secondOfDay t / 3600) ++
        ':' :: (digits 2 (secondOfDay t / 60 % 60) ++
          ':' :: digits 2 (secondOfDay t % 60)))))

/-- `strftime('%Y-%m-%dT%H:%M:%SZ', …)`, which migrations write. -/
def strftimeText (t : UtcInstant) : List Char :=
  yearText (year t) ++ '-' :: (digits 2 (civilMonth (epochDay t)).toNat ++
    '-' :: (digits 2 (civilDay (epochDay t)).toNat ++
      'T' :: (digits 2 (secondOfDay t / 3600) ++
        ':' :: (digits 2 (secondOfDay t / 60 % 60) ++
          ':' :: (digits 2 (secondOfDay t % 60) ++ ['Z'])))))

variable {a b : UtcInstant}

theorem year_bounds (t : UtcInstant) : -9999 ≤ year t ∧ year t ≤ 9999 := by
  have hl := t.lower
  have hu := t.upper
  have hlow : civilYear (-4371586) ≤ year t :=
    civilYear_mono (by simp only [epochDay, nanosPerSecond]; omega)
  have hhigh : year t ≤ civilYear 2932895 :=
    civilYear_mono (by simp only [epochDay, nanosPerSecond]; omega)
  have hlow' : civilYear (-4371586) = -9999 := by decide
  have hhigh' : civilYear 2932895 = 9999 := by decide
  omega

theorem subsecond_lt (t : UtcInstant) : subsecond t < 10 ^ 9 := by
  simp only [subsecond, nanosPerSecond]
  omega

theorem secondOfDay_lt (t : UtcInstant) : secondOfDay t < 86400 := by
  simp only [secondOfDay, nanosPerSecond]
  omega

theorem fractionalWidth_le (t : UtcInstant) : fractionalWidth t ≤ 9 := by
  simp only [fractionalWidth]
  split_ifs <;> omega

theorem dvd_subsecond (t : UtcInstant) : 10 ^ (9 - fractionalWidth t) ∣ subsecond t := by
  have hnanos := t.nanos_eq
  simp only [fractionalWidth, subsecond, nanosPerSecond] at hnanos ⊢
  split_ifs with hzero hmilli hmicro
  · refine Nat.dvd_of_mod_eq_zero ?_
    omega
  · refine Nat.dvd_of_mod_eq_zero ?_
    omega
  · refine Nat.dvd_of_mod_eq_zero ?_
    omega
  · exact one_dvd _

theorem instant_lt_cases (h : a < b) :
    epochDay a < epochDay b ∨ epochDay a = epochDay b ∧
      (secondOfDay a < secondOfDay b ∨
        secondOfDay a = secondOfDay b ∧ subsecond a < subsecond b) := by
  rw [UtcInstant.lt_iff] at h
  simp only [epochDay, secondOfDay, subsecond, nanosPerSecond]
  omega

theorem clock_lt_cases {m n : ℕ} (h : m < n) :
    m / 3600 < n / 3600 ∨ m / 3600 = n / 3600 ∧ (m / 60 % 60 < n / 60 % 60 ∨
      m / 60 % 60 = n / 60 % 60 ∧ m % 60 < n % 60) := by
  omega

theorem cons_lt_cons_of_lt {c : Char} {u v : List Char} (h : u < v) : c :: u < c :: v :=
  List.cons_lt_cons_iff.mpr (.inr ⟨rfl, h⟩)

/-- Within one year the texts are ordered like the instants. -/
theorem afterYear_lt (hyear : year a = year b) (h : a < b) : afterYear a < afterYear b := by
  have hmonth := civilMonth_bounds (epochDay b)
  have hday := civilDay_bounds (epochDay b)
  have hclock := secondOfDay_lt b
  have hfraction : subsecond a < subsecond b →
      fraction 9 (fractionalWidth a) (subsecond a) ++ ['+', '0', '0', ':', '0', '0'] <
        fraction 9 (fractionalWidth b) (subsecond b) ++ ['+', '0', '0', ':', '0', '0'] :=
    fun hlt ↦ fraction_lt (by decide) (fractionalWidth_le a) (fractionalWidth_le b)
      (dvd_subsecond a) (dvd_subsecond b) hlt (subsecond_lt b) _
  have hcivil : (civilMonth (epochDay a)).toNat < (civilMonth (epochDay b)).toNat ∨
      (civilMonth (epochDay a)).toNat = (civilMonth (epochDay b)).toNat ∧
        ((civilDay (epochDay a)).toNat < (civilDay (epochDay b)).toNat ∨
          (civilDay (epochDay a)).toNat = (civilDay (epochDay b)).toNat ∧
            (secondOfDay a < secondOfDay b ∨
              secondOfDay a = secondOfDay b ∧ subsecond a < subsecond b)) := by
    rcases instant_lt_cases h with hd | ⟨hd, hrest⟩
    · have hlt := civil_lt hd
      have hmonth' := civilMonth_bounds (epochDay a)
      have hday' := civilDay_bounds (epochDay a)
      simp only [year] at hyear
      omega
    · rw [hd]
      exact .inr ⟨rfl, .inr ⟨rfl, hrest⟩⟩
  refine cons_lt_cons_of_lt (digits_append_lt (by omega) ?_)
  refine hcivil.imp_right (And.imp_right (fun hcivil ↦ cons_lt_cons_of_lt ?_))
  refine digits_append_lt (by omega) ?_
  refine hcivil.imp_right (And.imp_right (fun htime ↦ cons_lt_cons_of_lt ?_))
  refine digits_append_lt (by omega) ?_
  rcases htime with hlt | ⟨heq, hsub⟩
  · refine (clock_lt_cases hlt).imp_right (And.imp_right (fun hminute ↦ cons_lt_cons_of_lt ?_))
    refine digits_append_lt (by omega) ?_
    refine hminute.imp_right (And.imp_right (fun hsecond ↦ cons_lt_cons_of_lt ?_))
    exact digits_append_lt (by omega) (.inl hsecond)
  · rw [heq]
    refine .inr ⟨rfl, cons_lt_cons_of_lt (List.append_left_lt (cons_lt_cons_of_lt ?_))⟩
    exact List.append_left_lt (hfraction hsub)

theorem yearText_append_lt {m n : ℤ} (hn : n ≤ 9999) (h : m < n) (hn0 : 0 ≤ n)
    (u v : List Char) : yearText m ++ u < yearText n ++ v := by
  by_cases hm0 : 0 ≤ m
  · rw [yearText, yearText, if_pos hm0, if_pos hn0]
    exact digits_append_lt (by omega) (.inl (by omega))
  · rw [yearText, yearText, if_neg hm0, if_pos hn0, List.cons_append]
    exact stop_lt_digits (by decide) (by decide) _ _

theorem yearText_append_lt_of_neg {m n : ℤ} (hm : -9999 ≤ m) (h : m < n) (hn0 : n < 0)
    (u v : List Char) : yearText n ++ v < yearText m ++ u := by
  rw [yearText, yearText, if_neg (by omega), if_neg (by omega), List.cons_append, List.cons_append]
  exact cons_lt_cons_of_lt (digits_append_lt (by omega) (.inl (by omega)))

theorem year_mono (h : a ≤ b) : year a ≤ year b := by
  refine civilYear_mono ?_
  rw [UtcInstant.le_iff] at h
  simp only [epochDay, nanosPerSecond]
  omega

/-- The texts are ordered like the instants, except between two different years before year 0. -/
theorem sqliteText_lt (h : a < b) (hyears : 0 ≤ year b ∨ year a = year b) :
    sqliteText a < sqliteText b := by
  rcases (year_mono h.le).lt_or_eq with hlt | heq
  · exact yearText_append_lt (year_bounds b).2 hlt (by omega) _ _
  · rw [sqliteText, sqliteText, heq]
    exact List.append_left_lt (afterYear_lt heq h)

theorem sqliteText_lt_of_neg (hlt : year a < year b) (hneg : year b < 0) :
    sqliteText b < sqliteText a :=
  yearText_append_lt_of_neg (year_bounds a).1 hlt hneg _ _

theorem sqliteText_le_iff (hyears : 0 ≤ year a ∨ 0 ≤ year b ∨ year a = year b) :
    sqliteText a ≤ sqliteText b ↔ a ≤ b := by
  constructor
  · intro hle
    by_contra hnot
    rw [not_le] at hnot
    refine absurd (sqliteText_lt hnot ?_) (not_lt_of_ge hle)
    have hmono := year_mono hnot.le
    omega
  · intro hle
    rcases hle.lt_or_eq with hlt | rfl
    · refine (sqliteText_lt hlt ?_).le
      have hmono := year_mono hle
      omega
    · exact le_rfl

/-- The cutoff test of a stored instant goes wrong exactly between different years before year 0. -/
theorem sqliteText_le_agrees_iff :
    (sqliteText a ≤ sqliteText b ↔ a ≤ b) ↔ 0 ≤ year a ∨ 0 ≤ year b ∨ year a = year b := by
  refine ⟨fun h ↦ ?_, sqliteText_le_iff⟩
  by_contra hnot
  rcases lt_trichotomy (year a) (year b) with hlt | heq | hgt
  · have hab : a ≤ b := le_of_not_gt (fun hba ↦ absurd (year_mono hba.le) (by omega))
    exact absurd (sqliteText_lt_of_neg hlt (by omega)) (not_lt_of_ge (h.mpr hab))
  · exact hnot (.inr (.inr heq))
  · have hba : ¬ a ≤ b := fun hab ↦ absurd (year_mono hab) (by omega)
    exact hba (h.mp (sqliteText_lt_of_neg hgt (by omega)).le)

end Jaunder.Common.SqliteTime
