import Mathlib.Tactic.Common

/-! The proleptic Gregorian calendar. A date is numbered by the days up to it, and its number determines it.
The year of a day within a cycle of 400 years is computed with years that begin in March. -/

namespace Gregorian

def leap (year : Int) : Bool := year % 4 = 0 ∧ (year % 100 ≠ 0 ∨ year % 400 = 0)

def daysInMonth (year month : Int) : Int :=
  if month = 2 then if leap year then 29 else 28
  else if month = 4 ∨ month = 6 ∨ month = 9 ∨ month = 11 then 30
  else 31

theorem daysInMonth_le (year month : Int) : daysInMonth year month ≤ 31 := by
  unfold daysInMonth
  split_ifs <;> decide

structure IsDate (year month day : Int) : Prop where
  inYear : 1 ≤ month ∧ month ≤ 12
  inMonth : 1 ≤ day ∧ day ≤ daysInMonth year month

def daysBeforeYear (year : Int) : Int :=
  365 * (year - 1) + (year - 1) / 4 - (year - 1) / 100 + (year - 1) / 400

/-- The days of the first `months` months. -/
def daysOfMonths (year : Int) : Nat → Int
  | 0 => 0
  | months + 1 => daysOfMonths year months + daysInMonth year (months + 1)

def daysBeforeMonth (year month : Int) : Int := daysOfMonths year (month - 1).toNat

/-- The first of January of the year 1 is the first day. -/
def ordinal (year month day : Int) : Int := daysBeforeYear year + daysBeforeMonth year month + day

section Cycle

/-- The day of the cycle with which a year of the cycle begins. -/
def yearStart (year : Int) : Int := 365 * year + year / 4 - year / 100

/-- The year of the cycle in which a day lies. -/
def yearOfCycle (day : Int) : Int := (day - day / 1460 + day / 36524 - day / 146096) / 365

theorem yearOfCycle_le_succ (day : Int) : yearOfCycle day ≤ yearOfCycle (day + 1) := by
  have hcycle : day / 146096 = day / 36524 / 4 := by omega
  have hcycle' : (day + 1) / 146096 = (day + 1) / 36524 / 4 := by omega
  unfold yearOfCycle
  rw [hcycle, hcycle']
  apply Int.ediv_le_ediv (by decide)
  have hcentury : (day + 1) / 36524 = day / 36524 ∨ (day + 1) / 36524 = day / 36524 + 1 := by omega
  omega

theorem yearOfCycle_mono {day day' : Int} (h : day ≤ day') : yearOfCycle day ≤ yearOfCycle day' := by
  obtain ⟨n, rfl⟩ := Int.le.dest h
  clear h
  induction n with
  | zero => simp
  | succ n ih =>
      calc yearOfCycle day ≤ yearOfCycle (day + n) := ih
        _ ≤ yearOfCycle (day + n + 1) := yearOfCycle_le_succ _
        _ = yearOfCycle (day + (n + 1 : Nat)) := by rw [Int.natCast_succ, Int.add_assoc]

/-- The first and the last day of each year. -/
theorem yearOfCycle_ends : ∀ year < 400, yearOfCycle (yearStart (year : Nat)) = year ∧
    yearOfCycle (yearStart (year + 1) - 1 + (year + 1) / 400) = year := by
  decide +kernel

variable {day : Int}

theorem yearOfCycle_bounds (hday : 0 ≤ day ∧ day < 146097) : 0 ≤ yearOfCycle day ∧ yearOfCycle day < 400 := by
  unfold yearOfCycle
  omega

/-- A day lies between the first and the last day of its year. -/
theorem yearStart_bounds (hday : 0 ≤ day ∧ day < 146097) : yearStart (yearOfCycle day) ≤ day ∧
    day < yearStart (yearOfCycle day + 1) + (yearOfCycle day + 1) / 400 := by
  obtain ⟨hnonneg, hlt⟩ := yearOfCycle_bounds hday
  obtain ⟨year, hyear⟩ := Int.eq_ofNat_of_zero_le hnonneg
  rw [hyear] at hlt ⊢
  constructor
  · by_contra hbefore
    cases year with
    | zero =>
        simp only [yearStart] at hbefore
        omega
    | succ year =>
        have hlast := (yearOfCycle_ends year (by omega)).2
        have hle : day ≤ yearStart (year + 1) - 1 + (year + 1) / 400 := by
          push_cast at hbefore
          omega
        have hmono := yearOfCycle_mono hle
        omega
  · by_contra hafter
    by_cases hlast : year + 1 < 400
    · have hfirst := (yearOfCycle_ends (year + 1) hlast).1
      have hle : yearStart ((year + 1 : Nat) : Int) ≤ day := by
        push_cast
        omega
      have hmono := yearOfCycle_mono hle
      omega
    · obtain rfl : year = 399 := by omega
      simp only [yearStart] at hafter
      omega

end Cycle

section March

variable {mp : Int}

/-- The leap day is the last day of a year that begins in March. -/
theorem daysBeforeMonth_march (year : Int) (hmp : 0 ≤ mp ∧ mp < 10) :
    daysBeforeMonth year (mp + 3) = 59 + (if leap year then 1 else 0) + (153 * mp + 2) / 5 := by
  obtain rfl | rfl | rfl | rfl | rfl | rfl | rfl | rfl | rfl | rfl : mp = 0 ∨ mp = 1 ∨ mp = 2 ∨ mp = 3 ∨
    mp = 4 ∨ mp = 5 ∨ mp = 6 ∨ mp = 7 ∨ mp = 8 ∨ mp = 9 := by omega
  all_goals
    simp [daysBeforeMonth, daysOfMonths, daysInMonth]
    split_ifs <;> rfl

theorem daysInMonth_march (year : Int) (hmp : 0 ≤ mp ∧ mp < 10) :
    daysInMonth year (mp + 3) = (153 * (mp + 1) + 2) / 5 - (153 * mp + 2) / 5 := by
  obtain rfl | rfl | rfl | rfl | rfl | rfl | rfl | rfl | rfl | rfl : mp = 0 ∨ mp = 1 ∨ mp = 2 ∨ mp = 3 ∨
    mp = 4 ∨ mp = 5 ∨ mp = 6 ∨ mp = 7 ∨ mp = 8 ∨ mp = 9 := by omega
  all_goals rfl

theorem daysBeforeYear_succ (year : Int) :
    daysBeforeYear (year + 1) = daysBeforeYear year + 365 + if leap year then 1 else 0 := by
  simp only [daysBeforeYear, leap, decide_eq_true_eq]
  split_ifs <;> omega

variable {era year dayOfYear : Int}

variable (era) in
theorem daysBeforeYear_cycle (hyear : 0 ≤ year ∧ year < 400) :
    daysBeforeYear (year + era * 400 + 1) = era * 146097 + yearStart year := by
  unfold daysBeforeYear yearStart
  omega

variable (era) in
/-- The length of a year that begins in March is up to the leap day at its end. -/
theorem yearStart_succ (hyear : 0 ≤ year ∧ year < 400) :
    yearStart (year + 1) + (year + 1) / 400 - yearStart year =
      365 + if leap (year + era * 400 + 1) then 1 else 0 := by
  simp only [yearStart, leap, decide_eq_true_eq]
  split_ifs <;> omega

variable (era) in
/-- From March to December. -/
theorem isDate_march (hyear : 0 ≤ year ∧ year < 400) (hday : 0 ≤ dayOfYear) (hmp : mp = (5 * dayOfYear + 2) / 153)
    (hmarch : mp < 10) :
    IsDate (year + era * 400) (mp + 3) (dayOfYear - (153 * mp + 2) / 5 + 1) ∧
      ordinal (year + era * 400) (mp + 3) (dayOfYear - (153 * mp + 2) / 5 + 1) =
        era * 146097 + yearStart year + dayOfYear - 305 := by
  have hrange : 0 ≤ mp ∧ mp < 10 := ⟨by omega, hmarch⟩
  have hcycle := daysBeforeYear_cycle era hyear
  rw [daysBeforeYear_succ] at hcycle
  refine ⟨⟨by omega, ?_⟩, ?_⟩
  · rw [daysInMonth_march _ hrange]
    omega
  · rw [ordinal, daysBeforeMonth_march _ hrange]
    omega

variable (era) in
/-- January and February belong to the next year. -/
theorem isDate_january (hyear : 0 ≤ year ∧ year < 400)
    (hday : dayOfYear < yearStart (year + 1) + (year + 1) / 400 - yearStart year)
    (hmp : mp = (5 * dayOfYear + 2) / 153) (hmarch : 10 ≤ mp) :
    mp - 9 ≤ 2 ∧ IsDate (year + era * 400 + 1) (mp - 9) (dayOfYear - (153 * mp + 2) / 5 + 1) ∧
      ordinal (year + era * 400 + 1) (mp - 9) (dayOfYear - (153 * mp + 2) / 5 + 1) =
        era * 146097 + yearStart year + dayOfYear - 305 := by
  have hcycle := daysBeforeYear_cycle era hyear
  rw [yearStart_succ era hyear] at hday
  have hleap : (if leap (year + era * 400 + 1) then 1 else 0 : Int) ≤ 1 := by
    split_ifs <;> decide
  obtain rfl | rfl : mp = 10 ∨ mp = 11 := by omega
  · have hmonth : daysBeforeMonth (year + era * 400 + 1) (10 - 9) = 0 := rfl
    refine ⟨by decide, ⟨by decide, ?_⟩, ?_⟩
    · show _ ∧ _ ≤ (31 : Int)
      omega
    · rw [ordinal, hmonth]
      omega
  · have hmonth : daysBeforeMonth (year + era * 400 + 1) (11 - 9) = 31 := rfl
    refine ⟨by decide, ⟨by decide, ?_⟩, ?_⟩
    · show _ ∧ _ ≤ (if leap (year + era * 400 + 1) then 29 else 28 : Int)
      split_ifs at hday ⊢ <;> omega
    · rw [ordinal, hmonth]
      omega

end March

end Gregorian
