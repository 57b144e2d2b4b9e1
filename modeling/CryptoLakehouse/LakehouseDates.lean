import CryptoLakehouse.LakehouseCatalog
import CryptoLakehouse.LibraryCalendar

/-! The directories of the part files are those of the calendar: the year, month and day in their names are
the date with the number of the day, and different dates have different directories. -/

namespace CryptoLakehouse.Catalog

section Text

theorem append_injective (label : String) {text text' : String} (h : label ++ text = label ++ text') :
    text = text' := by
  have hlists := congrArg String.toList h
  rw [String.toList_append, String.toList_append, List.append_cancel_left_eq] at hlists
  exact String.toList_inj.mp hlists

theorem natText_injective {n n' : Nat} (h : toString n = toString n') : n = n' := by
  have hdigits : Nat.toDigits 10 n = Nat.toDigits 10 n' := by
    rw [Nat.toString_eq_ofList_toDigits, Nat.toString_eq_ofList_toDigits] at h
    exact String.ofList_injective h
  calc n = Nat.ofDigitChars 10 (Nat.toDigits 10 n) 0 := Nat.ofDigitChars_ten_toDigits.symm
    _ = Nat.ofDigitChars 10 (Nat.toDigits 10 n') 0 := by rw [hdigits]
    _ = n' := Nat.ofDigitChars_ten_toDigits

/-- The text of a natural number has no sign. -/
theorem natText_ne (n : Nat) (text : String) : toString n ≠ "-" ++ text := by
  intro h
  have hlists := congrArg String.toList h
  rw [Nat.toString_eq_ofList_toDigits, String.toList_ofList, String.toList_append] at hlists
  have hsign : '-' ∈ Nat.toDigits 10 n := by
    rw [hlists]
    exact List.mem_cons_self
  exact absurd (Nat.isDigit_of_mem_toDigits (by decide) (by decide) hsign) (by decide)

theorem intText_injective {n n' : Int} (h : toString n = toString n') : n = n' := by
  cases n with
  | ofNat m =>
      cases n' with
      | ofNat m' => exact congrArg Int.ofNat (natText_injective h)
      | negSucc m' => exact absurd h (natText_ne m _)
  | negSucc m =>
      cases n' with
      | ofNat m' => exact absurd h.symm (natText_ne m' _)
      | negSucc m' =>
          have hsucc : m + 1 = m' + 1 := natText_injective (append_injective "-" h)
          exact congrArg Int.negSucc (Nat.succ.inj hsucc)

end Text

section Dates

/-- The directory of a date of the calendar; 1970-01-01 has the ordinal 719163. -/
def IsDateDir (day : Int) (dir : List String) : Prop :=
  ∃ year month dayOfMonth, Gregorian.IsDate year month dayOfMonth ∧
    Gregorian.ordinal year month dayOfMonth = day + 719163 ∧
      dir = ["year=" ++ toString year, "month=" ++ twoDigits month, "day=" ++ twoDigits dayOfMonth]

/-- Year, month and day of a partition are those of the calendar. -/
theorem isDate_civilFromDays (day : Int) : ∃ year month dayOfMonth,
    civilFromDays day = (year, month, dayOfMonth) ∧ Gregorian.IsDate year month dayOfMonth ∧
      Gregorian.ordinal year month dayOfMonth = day + 719163 := by
  obtain ⟨era, hera⟩ : ∃ era, era = (day + 719468) / 146097 := ⟨_, rfl⟩
  obtain ⟨doe, hdoe⟩ : ∃ doe, doe = (day + 719468) % 146097 := ⟨_, rfl⟩
  obtain ⟨yoe, hyoe⟩ : ∃ yoe, yoe = Gregorian.yearOfCycle doe := ⟨_, rfl⟩
  obtain ⟨doy, hdoy⟩ : ∃ doy, doy = doe - Gregorian.yearStart yoe := ⟨_, rfl⟩
  obtain ⟨mp, hmp⟩ : ∃ mp, mp = (5 * doy + 2) / 153 := ⟨_, rfl⟩
  have hcivil : civilFromDays day =
      (yoe + era * 400 + (if (if mp < 10 then mp + 3 else mp - 9) ≤ 2 then 1 else 0),
        if mp < 10 then mp + 3 else mp - 9, doy - (153 * mp + 2) / 5 + 1) := by
    rw [hmp, hdoy, hyoe, hdoe, hera]
    rfl
  have hcycle : 0 ≤ doe ∧ doe < 146097 := by omega
  have hyear := Gregorian.yearOfCycle_bounds hcycle
  have hbounds := Gregorian.yearStart_bounds hcycle
  rw [← hyoe] at hyear hbounds
  by_cases hmarch : mp < 10
  · obtain ⟨hdate, hordinal⟩ := Gregorian.isDate_march era hyear (by omega) hmp hmarch
    rw [if_pos hmarch, if_neg (by omega), Int.add_zero] at hcivil
    exact ⟨_, _, _, hcivil, hdate, by omega⟩
  · obtain ⟨hmonth, hdate, hordinal⟩ := Gregorian.isDate_january era hyear (by omega) hmp (by omega)
    rw [if_neg hmarch, if_pos hmonth] at hcivil
    exact ⟨_, _, _, hcivil, hdate, by omega⟩

theorem isDateDir_partitionDir (day : Int) : IsDateDir day (partitionDir day) := by
  obtain ⟨year, month, dayOfMonth, hcivil, hdate, hordinal⟩ := isDate_civilFromDays day
  refine ⟨year, month, dayOfMonth, hdate, hordinal, ?_⟩
  rw [partitionDir, hcivil]

theorem civilFromDays_injective : Function.Injective civilFromDays := by
  intro day day' h
  obtain ⟨year, month, dayOfMonth, hcivil, -, hordinal⟩ := isDate_civilFromDays day
  obtain ⟨year', month', dayOfMonth', hcivil', -, hordinal'⟩ := isDate_civilFromDays day'
  rw [hcivil, hcivil', Prod.mk.injEq, Prod.mk.injEq] at h
  obtain ⟨rfl, rfl, rfl⟩ := h
  omega

theorem twoDigits_natCast : ∀ n < 32, ∀ n' < 32, twoDigits (n : Nat) = twoDigits (n' : Nat) → n = n' := by
  decide +kernel

theorem twoDigits_injective {n n' : Int} (hn : 1 ≤ n ∧ n ≤ 31) (hn' : 1 ≤ n' ∧ n' ≤ 31)
    (h : twoDigits n = twoDigits n') : n = n' := by
  obtain ⟨m, rfl⟩ := Int.eq_ofNat_of_zero_le (show 0 ≤ n by omega)
  obtain ⟨m', rfl⟩ := Int.eq_ofNat_of_zero_le (show 0 ≤ n' by omega)
  exact congrArg Int.ofNat (twoDigits_natCast m (by omega) m' (by omega) h)

/-- Every date has a directory of its own. -/
theorem partitionDir_injective : Function.Injective partitionDir := by
  intro day day' h
  obtain ⟨year, month, dayOfMonth, hcivil, hdate, -⟩ := isDate_civilFromDays day
  obtain ⟨year', month', dayOfMonth', hcivil', hdate', -⟩ := isDate_civilFromDays day'
  apply civilFromDays_injective
  rw [hcivil, hcivil']
  simp only [partitionDir, hcivil, hcivil', List.cons.injEq] at h
  obtain ⟨hyear, hmonth, hday, -⟩ := h
  have hdays := hdate.inMonth
  have hdays' := hdate'.inMonth
  have hmonths := Gregorian.daysInMonth_le year month
  have hmonths' := Gregorian.daysInMonth_le year' month'
  rw [intText_injective (append_injective "year=" hyear),
    twoDigits_injective (by have := hdate.inYear; omega) (by have := hdate'.inYear; omega)
      (append_injective "month=" hmonth),
    twoDigits_injective (by omega) (by omega) (append_injective "day=" hday)]

end Dates

end CryptoLakehouse.Catalog
