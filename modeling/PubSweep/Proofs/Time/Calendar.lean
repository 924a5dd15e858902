import Mathlib.Tactic.IntervalCases
import PubSweep.Time

/-!
The calendar: every day has a date, and the date tells the day.

The years are counted from March, so that a leap day is the last day of its year.  Four hundred such
years, an era, always have 146097 days.
-/

namespace PubSweep.Timestamp

/-- A day of an era, by the century, the four years, the year and the day in which it is.  Only the
last of four years has a leap day, and in the last four years of a century only the last century. -/
structure EraDay where
  century : Nat
  quad : Nat
  year : Nat
  day : Nat
  century_le : century ≤ 3
  quad_le : quad ≤ 24
  year_le : year ≤ 3
  day_le : day ≤ 364 ∨ day = 365 ∧ year = 3 ∧ (quad < 24 ∨ century = 3)

namespace EraDay

/-- The days of the era before a day. -/
def number (p : EraDay) : Nat := 36524 * p.century + 1461 * p.quad + 365 * p.year + p.day

/-- The years of the era before the year of a day. -/
def yearNumber (p : EraDay) : Nat := 100 * p.century + 4 * p.quad + p.year

theorem exists_number {n : Nat} (h : n < 146097) : ∃ p : EraDay, p.number = n := by
  let c := min (n / 36524) 3
  let q := (n - 36524 * c) / 1461
  let k := min ((n - 36524 * c) % 1461 / 365) 3
  refine ⟨⟨c, q, k, (n - 36524 * c) % 1461 - 365 * k, ?_, ?_, ?_, ?_⟩, ?_⟩
  · exact Nat.min_le_right _ _
  · omega
  · exact Nat.min_le_right _ _
  · omega
  · simp only [number]
    omega

theorem number_lt (p : EraDay) : p.number < 146097 := by
  obtain ⟨c, q, k, d, hc, hq, hk, hd⟩ := p
  simp only [number]
  omega

theorem yearNumber_lt (p : EraDay) : p.yearNumber < 400 := by
  obtain ⟨c, q, k, d, hc, hq, hk, hd⟩ := p
  simp only [yearNumber]
  omega

/-- The year is found from the number of the day, where leap days are left out of the count. -/
theorem yearNumber_eq (p : EraDay) :
    (p.number - p.number / 1460 + p.number / 36524 - p.number / 146096) / 365 =
      p.yearNumber := by
  obtain ⟨c, q, k, d, hc, hq, hk, hd⟩ := p
  simp only [number, yearNumber]
  generalize hn : 36524 * c + 1461 * q + 365 * k + d = n
  -- The count of leap days is one too high only near the end of the last of four years.
  have hquads : n / 1460 = 25 * c + q ∨ n / 1460 = 25 * c + q + 1 ∧ k = 3 ∧ 1 ≤ d := by omega
  have hcenturies : n / 36524 = c ∧ n / 146096 = 0 ∨ c = 3 ∧ q = 24 ∧ k = 3 ∧ d = 365 := by
    omega
  omega

theorem number_eq (p : EraDay) :
    p.number = 365 * p.yearNumber + p.yearNumber / 4 - p.yearNumber / 100 + p.day := by
  obtain ⟨c, q, k, d, hc, hq, hk, hd⟩ := p
  simp only [number, yearNumber]
  omega

end EraDay

/-- Every day is in an era. -/
theorem exists_eraDay (days : Int) :
    ∃ (era : Int) (p : EraDay), days = era * 146097 + p.number - 719468 := by
  have hlt : ((days + 719468) % 146097).toNat < 146097 := by omega
  obtain ⟨p, hp⟩ := EraDay.exists_number hlt
  exact ⟨(days + 719468) / 146097, p, by omega⟩

/-- The date of a day of an era. -/
theorem dateOf_eraDay (era : Int) (p : EraDay) :
    dateOf (era * 146097 + p.number - 719468) =
      let shifted := (5 * p.day + 2) / 153
      let year : Int := era * 400 + p.yearNumber
      let day := p.day - (153 * shifted + 2) / 5 + 1
      if shifted < 10 then (year, shifted + 3, day) else (year + 1, shifted - 9, day) := by
  have hera : Int.fdiv (era * 146097 + p.number - 719468 + 719468) 146097 = era := by
    have hlt := p.number_lt
    rw [Int.fdiv_eq_ediv_of_nonneg _ (by decide)]
    omega
  have hnumber :
      (era * 146097 + p.number - 719468 + 719468 - era * 146097 : Int).toNat = p.number := by
    omega
  have hday : p.number - (365 * p.yearNumber + p.yearNumber / 4 - p.yearNumber / 100) = p.day := by
    rw [p.number_eq]
    omega
  simp only [dateOf, hera, hnumber, p.yearNumber_eq, hday]
  split
  · rw [if_neg (by omega)]
    ac_rfl
  · have hle := p.day_le
    rw [if_pos (by omega)]
    ac_rfl

/-- The date of a day tells the day. -/
theorem daysOf_dateOf (days : Int) :
    daysOf (dateOf days).1 (dateOf days).2.1 (dateOf days).2.2 = days := by
  obtain ⟨era, p, rfl⟩ := exists_eraDay days
  rw [dateOf_eraDay]
  have hnumber := p.number_eq
  have hday := p.day_le
  have hyear := p.yearNumber_lt
  generalize p.number = n at *
  generalize p.yearNumber = y at *
  dsimp only
  split
  case isTrue hmonth =>
    have hera : (era * 400 + y) / 400 = era := by omega
    simp only [daysOf]
    rw [if_neg (by omega), if_neg (by omega), Int.fdiv_eq_ediv_of_nonneg _ (by decide), hera]
    omega
  case isFalse hmonth =>
    have hera : (era * 400 + y + 1 - 1) / 400 = era := by omega
    simp only [daysOf]
    rw [if_pos (by omega), if_pos (by omega), Int.fdiv_eq_ediv_of_nonneg _ (by decide), hera]
    omega

section Months

variable {year : Int} {d s : Nat}

theorem isLeap_iff :
    isLeap year = true ↔ year % 4 = 0 ∧ (year % 100 ≠ 0 ∨ year % 400 = 0) := by
  simp [isLeap]

/-- The months from March to December are long enough for their days. -/
theorem day_le_of_march (hs : (5 * d + 2) / 153 = s) (h : s < 10) :
    d - (153 * s + 2) / 5 + 1 ≤ daysInMonth year (s + 3) := by
  interval_cases s <;> simp [daysInMonth] <;> omega

/-- January and February are long enough for their days. -/
theorem day_le_of_january (hs : (5 * d + 2) / 153 = s) (h : ¬ s < 10) (hd : d ≤ 365)
    (hleap : d = 365 → isLeap year = true) :
    d - (153 * s + 2) / 5 + 1 ≤ daysInMonth year (s - 9) := by
  have hlast : s = 10 ∨ s = 11 := by omega
  obtain rfl | rfl := hlast
  · have hlength : daysInMonth year (10 - 9) = 31 := rfl
    rw [hlength]
    omega
  · have hlength : daysInMonth year (11 - 9) = if isLeap year then 29 else 28 := rfl
    rw [hlength]
    split
    · omega
    · have hd' : d ≠ 365 := by simp_all
      omega

end Months

theorem daysInMonth_le (year : Int) (month : Nat) : daysInMonth year month ≤ 31 := by
  simp only [daysInMonth]
  grind

/-- The date of a day is in the calendar. -/
theorem dateOf_legal (days : Int) :
    1 ≤ (dateOf days).2.1 ∧ (dateOf days).2.1 ≤ 12 ∧ 1 ≤ (dateOf days).2.2 ∧
      (dateOf days).2.2 ≤ daysInMonth (dateOf days).1 (dateOf days).2.1 := by
  obtain ⟨era, p, rfl⟩ := exists_eraDay days
  rw [dateOf_eraDay]
  have hd : p.day ≤ 365 := by have := p.day_le; omega
  have hleap : p.day = 365 → isLeap (era * 400 + p.yearNumber + 1) = true := by
    intro h
    have hlast := p.day_le
    have hquad := p.quad_le
    rw [isLeap_iff, EraDay.yearNumber]
    omega
  dsimp only
  split
  case isTrue hmarch =>
    exact ⟨by simp, by dsimp only; omega, by simp, day_le_of_march rfl hmarch⟩
  case isFalse hmarch =>
    exact ⟨by dsimp only; omega, by dsimp only; omega, by simp,
      day_le_of_january rfl hmarch hd hleap⟩

end PubSweep.Timestamp
