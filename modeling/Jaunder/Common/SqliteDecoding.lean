import Jaunder.Common.SqliteTime

namespace Jaunder.Common.SqliteTime

open Foundation.Calendar Foundation.Decimal
open Jaunder.Common.Time

/-- A time of the UTC civil calendar. -/
structure CivilTime where
  year : ℤ
  month : ℕ
  day : ℕ
  hour : ℕ
  minute : ℕ
  second : ℕ
  nanosecond : ℕ
  years : -9999 ≤ year ∧ year ≤ 9999
  date : IsDate year month day
  clock : hour < 24 ∧ minute < 60 ∧ second < 60 ∧ nanosecond < 10 ^ 9

def CivilTime.nanos (c : CivilTime) : ℤ :=
  (daysFromCivil c.year c.month c.day * 86400 + (3600 * c.hour + 60 * c.minute + c.second)) *
    nanosPerSecond + c.nanosecond

/-- The text in the format of RFC 3339, with so many decimal places. -/
def CivilTime.text (c : CivilTime) (width : ℕ) : List Char :=
  yearText c.year ++ '-' :: (digits 2 c.month ++ '-' :: (digits 2 c.day ++ 'T' :: (digits 2 c.hour ++
    ':' :: (digits 2 c.minute ++ ':' :: (digits 2 c.second ++
      (fraction 9 width c.nanosecond ++ ['+', '0', '0', ':', '0', '0']))))))

/-- What Jiff says of its timestamp parser: a date and time at offset zero is read as the instant
that the calendar gives it. -/
structure ReadsUtc (parse : List Char → Option UtcInstant) : Prop where
  text : ∀ c : CivilTime, ∀ width ≤ 9, 10 ^ (9 - width) ∣ c.nanosecond →
    ∀ t : UtcInstant, t.nanos = c.nanos → parse (c.text width) = some t

variable (parse parseCivil : List Char → Option UtcInstant)

/-- `Decode` of a TEXT value. -/
def sqliteDecode (s : List Char) : Option UtcInstant := (parse s).or (parseCivil s)

section Decoding

variable {parse parseCivil} {a b t : UtcInstant}

/-- The civil time of an instant. -/
def civilTime (t : UtcInstant) : CivilTime where
  year := year t
  month := (civilMonth (epochDay t)).toNat
  day := (civilDay (epochDay t)).toNat
  hour := secondOfDay t / 3600
  minute := secondOfDay t / 60 % 60
  second := secondOfDay t % 60
  nanosecond := subsecond t
  years := year_bounds t
  date := by
    have hmonth := civilMonth_bounds (epochDay t)
    have hday := civilDay_bounds (epochDay t)
    rw [Int.toNat_of_nonneg (by omega), Int.toNat_of_nonneg (by omega)]
    exact isDate_civil (epochDay t)
  clock := by
    have hsecond := secondOfDay_lt t
    exact ⟨by omega, by omega, by omega, subsecond_lt t⟩

theorem civilTime_text (t : UtcInstant) : (civilTime t).text (fractionalWidth t) = sqliteText t := rfl

theorem civilTime_nanos (t : UtcInstant) : (civilTime t).nanos = t.nanos := by
  have hmonth := civilMonth_bounds (epochDay t)
  have hday := civilDay_bounds (epochDay t)
  have hdays : daysFromCivil (year t) (civilMonth (epochDay t)).toNat (civilDay (epochDay t)).toNat =
      epochDay t := by
    rw [Int.toNat_of_nonneg (by omega), Int.toNat_of_nonneg (by omega)]
    exact daysFromCivil_civil (epochDay t)
  simp only [CivilTime.nanos, civilTime, hdays]
  simp only [epochDay, secondOfDay, subsecond, nanosPerSecond]
  omega

/-- An instant comes back from its text. -/
theorem sqliteDecode_sqliteText (h : ReadsUtc parse) (t : UtcInstant) :
    sqliteDecode parse parseCivil (sqliteText t) = some t := by
  have hparse := h.text (civilTime t) (fractionalWidth t) (fractionalWidth_le t) (dvd_subsecond t) t
    (civilTime_nanos t).symm
  rw [civilTime_text] at hparse
  rw [sqliteDecode, hparse, Option.some_or]

/-- The texts come back as the instants, and compare like them exactly when the instants are not in
two different years before year 0. -/
theorem sqliteText_sorts_iff (h : ReadsUtc parse) :
    (sqliteDecode parse parseCivil (sqliteText a) = some a ∧
      sqliteDecode parse parseCivil (sqliteText b) = some b ∧
        (a < b ↔ sqliteText a < sqliteText b)) ↔
      0 ≤ year a ∨ 0 ≤ year b ∨ year a = year b := by
  rw [and_iff_right (sqliteDecode_sqliteText h a), and_iff_right (sqliteDecode_sqliteText h b)]
  have hagrees : (sqliteText b ≤ sqliteText a ↔ b ≤ a) ↔ 0 ≤ year b ∨ 0 ≤ year a ∨ year b = year a :=
    sqliteText_le_agrees_iff
  have hlt : (a < b ↔ sqliteText a < sqliteText b) ↔ (sqliteText b ≤ sqliteText a ↔ b ≤ a) := by
    rw [← not_le, ← not_le, not_iff_not]
    exact iff_comm
  rw [hlt, hagrees, eq_comm]
  exact or_left_comm

end Decoding

section Reader

variable {s rest : List Char} {width n : ℕ} {y : ℤ}

def number (s : List Char) : ℕ := s.foldl (fun n c ↦ 10 * n + (c.toNat - 48)) 0

def readYear : List Char → ℤ × List Char
  | '-' :: s => (-(number (s.take 6) : ℤ), s.drop 6)
  | s => (number (s.take 4), s.drop 4)

/-- A parser for texts at offset zero. -/
def readUtc (s : List Char) : Option UtcInstant :=
  let (y, rest) := readYear s
  let field (i : ℕ) : ℕ := number ((rest.drop i).take 2)
  let tail := rest.drop 15
  let places := (tail.take (tail.length - 6)).tail
  UtcInstant.ofNanos?
    ((daysFromCivil y (field 1) (field 4) * 86400 + (3600 * field 7 + 60 * field 10 + field 13)) *
      nanosPerSecond + (number places * 10 ^ (9 - places.length) : ℕ))

theorem number_digits (h : n < 10 ^ width) : number (digits width n) = n := by
  have hdigit : ∀ d < 10, (digitChar d).toNat - 48 = d := by decide
  induction width generalizing n with
  | zero =>
    rw [pow_zero] at h
    rw [digits]
    exact (Nat.lt_one_iff.mp h).symm
  | succ width ih =>
    rw [pow_succ] at h
    have hfront := ih (n := n / 10) (by omega)
    rw [number] at hfront
    rw [number, digits, List.foldl_append, hfront, List.foldl_cons, List.foldl_nil,
      hdigit (n % 10) (by omega)]
    omega

theorem readYear_yearText (hy : -9999 ≤ y ∧ y ≤ 9999) :
    readYear (yearText y ++ rest) = (y, rest) := by
  rw [yearText]
  split_ifs with hneg
  · have hfour : ∃ a b c d, digits 4 y.toNat = [a, b, c, d] ∧ a ≠ '-' := by
      have hdash : ∀ m < 10, digitChar m ≠ '-' := by decide
      exact ⟨_, _, _, _, rfl, hdash _ (by omega)⟩
    obtain ⟨a, b, c, d, hdigits, ha⟩ := hfour
    have hvalue := number_digits (n := y.toNat) (show y.toNat < 10 ^ 4 by omega)
    rw [hdigits] at hvalue ⊢
    have hread : readYear ([a, b, c, d] ++ rest) = ((number [a, b, c, d] : ℤ), rest) := by
      rw [List.cons_append, readYear]
      · rfl
      · intro t ht
        exact ha (List.cons.inj ht).1
    rw [hread, hvalue]
    congr 1
    omega
  · have hsix : ∃ a b c d e f, digits 6 (-y).toNat = [a, b, c, d, e, f] :=
      ⟨_, _, _, _, _, _, rfl⟩
    obtain ⟨a, b, c, d, e, f, hdigits⟩ := hsix
    have hvalue := number_digits (n := (-y).toNat) (show (-y).toNat < 10 ^ 6 by omega)
    rw [hdigits] at hvalue ⊢
    have hread : readYear ('-' :: [a, b, c, d, e, f] ++ rest) =
        (-(number [a, b, c, d, e, f] : ℤ), rest) := rfl
    rw [hread, hvalue]
    congr 1
    omega

/-- The decimal places give the nanoseconds that they cut short. -/
theorem number_fraction (hwidth : width ≤ 9) (hdvd : 10 ^ (9 - width) ∣ n) (hn : n < 10 ^ 9) :
    number (fraction 9 width n).tail * 10 ^ (9 - (fraction 9 width n).tail.length) = n := by
  rw [fraction]
  split_ifs with hzero
  · rw [hzero] at hdvd
    have hnil : n = 0 := Nat.eq_zero_of_dvd_of_lt hdvd hn
    rw [hnil]
    rfl
  · have hpow : 10 ^ width * 10 ^ (9 - width) = 10 ^ 9 := by
      rw [← pow_add, Nat.add_sub_cancel' hwidth]
    have hlt : n / 10 ^ (9 - width) < 10 ^ width := by
      rw [Nat.div_lt_iff_lt_mul (Nat.pow_pos (by decide)), hpow]
      exact hn
    rw [List.tail_cons, digits_length, number_digits hlt]
    exact Nat.div_mul_cancel hdvd

theorem readUtc_readsUtc : ReadsUtc readUtc where
  text := by
    intro c width hwidth hdvd t ht
    have htwo {m : ℕ} (hm : m < 100) : ∃ a b, digits 2 m = [a, b] ∧ number [a, b] = m :=
      ⟨_, _, rfl, number_digits (n := m) (show m < 10 ^ 2 by omega)⟩
    have hday : c.day ≤ 31 := by
      have hle := c.date.days.2
      rw [daysInMonth] at hle
      split_ifs at hle <;> omega
    obtain ⟨-, hmonth⟩ := c.date.months
    obtain ⟨hhour, hminute, hsecond, hnanos⟩ := c.clock
    obtain ⟨a, b, hab, hmonth⟩ := htwo (m := c.month) (by omega)
    obtain ⟨a', b', hab', hday⟩ := htwo (m := c.day) (by omega)
    obtain ⟨d, e, hde, hhour⟩ := htwo (m := c.hour) (by omega)
    obtain ⟨d', e', hde', hminute⟩ := htwo (m := c.minute) (by omega)
    obtain ⟨u, v, huv, hsecond⟩ := htwo (m := c.second) (by omega)
    have hplaces (l : List Char) : ((l ++ ['+', '0', '0', ':', '0', '0']).take
        ((l ++ ['+', '0', '0', ':', '0', '0']).length - 6)) = l := by
      rw [List.length_append]
      exact List.take_left
    have hread : readUtc (c.text width) = UtcInstant.ofNanos?
        ((daysFromCivil c.year (number [a, b]) (number [a', b']) * 86400 +
          (3600 * number [d, e] + 60 * number [d', e'] + number [u, v])) * nanosPerSecond +
            (number (fraction 9 width c.nanosecond).tail *
              10 ^ (9 - (fraction 9 width c.nanosecond).tail.length) : ℕ)) := by
      rw [CivilTime.text, hab, hab', hde, hde', huv, readUtc, readYear_yearText c.years]
      simp only [List.cons_append, List.nil_append, List.drop_succ_cons, List.drop_zero,
        List.take_succ_cons, List.take_zero, hplaces]
    rw [hread, number_fraction hwidth hdvd hnanos, hmonth, hday, hhour, hminute, hsecond]
    refine UtcInstant.ofNanos?_eq_some.mpr ?_
    rw [ht, CivilTime.nanos]

end Reader

/-- `2024-01-01T00:00:00.5Z` -/
def halfSecond : UtcInstant := ⟨1704067200500000000, by decide, by decide⟩

def nextSecond : UtcInstant := ⟨1704067201000000000, by decide, by decide⟩

theorem halfSecond_sorts :
    sqliteDecode readUtc (fun _ ↦ none) (sqliteText halfSecond) = some halfSecond ∧
      sqliteDecode readUtc (fun _ ↦ none) (sqliteText nextSecond) = some nextSecond ∧
        (halfSecond < nextSecond ↔ sqliteText halfSecond < sqliteText nextSecond) :=
  (sqliteText_sorts_iff readUtc_readsUtc).mpr (.inl (by decide))

/-- `-000002-01-01T00:00:00Z` -/
def yearMinusTwo : UtcInstant := ⟨-62230291200000000000, by decide, by decide⟩

/-- `-000001-01-01T00:00:00Z` -/
def yearMinusOne : UtcInstant := ⟨-62198755200000000000, by decide, by decide⟩

theorem early_years_sort_backwards :
    yearMinusTwo < yearMinusOne ∧ ¬sqliteText yearMinusTwo < sqliteText yearMinusOne := by
  refine ⟨by decide, not_lt_of_gt (sqliteText_lt_of_neg ?_ ?_)⟩
  · decide
  · decide

end Jaunder.Common.SqliteTime
