import ExamVan.Helpers.StrictTimes
import ExamVan.Lib.Signed

/-!
# Days of the calendar

`days_from_civil` and `civil_from_days` with the widths of the code: the year and the number of the
day are signed, the month, the day and what is computed inside an era are unsigned words that wrap.
-/

namespace ExamVan.Helpers

open Calendar Signed

/-- `era`: a division that is rounded down, by one that rounds towards zero. -/
def era (k n : Int) : Signed Int := do
  if 0 ≤ k then int (k.tdiv n) else int ((← int (k - (n - 1))).tdiv n)

/-- `(int)(m <= 2)` -/
def early (m : UInt32) : Int := if m ≤ 2 then 1 else 0

/-- `m > 2 ? -3 : 9` -/
def monthShift (m : UInt32) : Signed Int := if m > 2 then int (-3) else pure 9

/-- The unsigned numbers of `days_from_civil`; the summand of the month is an `int` that becomes
unsigned. -/
def dayOfEra (yoe m d : UInt32) (shift : Int) : UInt32 :=
  let doy := (153 * (m + UInt32.ofInt shift) + 2) / 5 + d - 1
  yoe * 365 + yoe / 4 - yoe / 100 + doy

/-- `days_from_civil` -/
def signedDaysFromCivil (y : Int) (m d : UInt32) : Signed Int := do
  let y ← int (y - early m)
  let era ← era y 400
  let yoe := UInt32.ofInt (← int (y - (← int (era * 400))))
  let doe := dayOfEra yoe m d (← monthShift m)
  int ((← int ((← int (era * 146097)) + doe.toInt32.toInt)) - 719468)

/-- The unsigned numbers of `civil_from_days`: the year of the era, the month and the day. -/
def dateOfEra (doe : UInt32) : UInt32 × UInt32 × UInt32 :=
  let yoe := (doe - doe / 1460 + doe / 36524 - doe / 146096) / 365
  let doy := doe - (365 * yoe + yoe / 4 - yoe / 100)
  let mp := (5 * doy + 2) / 153
  let d2 := doy - (153 * mp + 2) / 5 + 1
  let m2 := if mp < 10 then mp + 3 else mp - 9
  (yoe, m2, d2)

/-- `civil_from_days` -/
def signedCivilFromDays (z : Int) : Signed (Int × UInt32 × UInt32) := do
  let z ← int (z + 719468)
  let era ← era z 146097
  let doe := UInt32.ofInt (← int (z - (← int (era * 146097))))
  let date := dateOfEra doe
  let y2 ← int (date.1.toInt32.toInt + (← int (era * 400)))
  return (← int (y2 + early date.2.1), date.2)

/-! ### The words inside an era -/

section

variable {n yoe : Int} {day year m d : UInt32}

theorem toNat_marchMonth (hm : 1 ≤ m.toNat ∧ m.toNat ≤ 12) :
    ((m + UInt32.ofInt (if m > 2 then -3 else 9)).toNat : Int) = marchMonth m.toNat := by
  have hearly : m > 2 ↔ 2 < m.toNat := UInt32.lt_iff_toNat_lt
  unfold marchMonth
  rw [UInt32.toNat_add]
  by_cases h : 2 < m.toNat
  · have hshift : (UInt32.ofInt (-3)).toNat = 4294967293 := by decide
    rw [if_pos (hearly.mpr h), if_neg (by omega), hshift]
    omega
  · have hshift : (UInt32.ofInt 9).toNat = 9 := by decide
    rw [if_neg (mt hearly.mp h), if_pos (by omega), hshift]
    omega

/-- The month of the code wraps, and what it is used for does not. -/
theorem toNat_dayOfEra (hyoe : 0 ≤ yoe ∧ yoe < 400) (hm : 1 ≤ m.toNat ∧ m.toNat ≤ 12)
    (hd : 1 ≤ d.toNat ∧ d.toNat ≤ 31) :
    ((dayOfEra (UInt32.ofInt yoe) m d (if m > 2 then -3 else 9)).toNat : Int) =
      daysBeforeYear yoe + daysBeforeMonth (marchMonth m.toNat) + d.toNat - 1 := by
  have hyear : ((UInt32.ofInt yoe).toNat : Int) = yoe := by
    rw [toNat_ofInt (by omega)]
    omega
  have hmonth := toNat_marchMonth hm
  have hbound : 0 ≤ marchMonth m.toNat ∧ marchMonth m.toNat < 12 := by
    unfold marchMonth
    split_ifs <;> omega
  unfold dayOfEra
  generalize m + UInt32.ofInt (if m > 2 then -3 else 9) = month at hmonth ⊢
  generalize UInt32.ofInt yoe = year at hyear ⊢
  rw [← hmonth] at hbound ⊢
  rw [← hyear] at hyoe ⊢
  have hwords : (year * 365 + year / 4 - year / 100 + ((153 * month + 2) / 5 + d - 1)).toNat =
      year.toNat * 365 + year.toNat / 4 - year.toNat / 100 +
        ((153 * month.toNat + 2) / 5 + d.toNat - 1) := by
    simp (disch := omega) only [UInt32.toNat_sub, UInt32.toNat_add, UInt32.toNat_div,
      UInt32.toNat_mul, UInt32.reduceToNat, Nat.mod_eq_of_lt, word_sub]
  dsimp only
  rw [hwords]
  unfold daysBeforeYear daysBeforeMonth
  omega

theorem toNat_yearOfEra (hday : day.toNat < 146097) :
    (((day - day / 1460 + day / 36524 - day / 146096) / 365).toNat : Int) = yearOf day.toNat := by
  have hwords : ((day - day / 1460 + day / 36524 - day / 146096) / 365).toNat =
      (day.toNat - day.toNat / 1460 + day.toNat / 36524 - day.toNat / 146096) / 365 := by
    simp (disch := omega) only [UInt32.toNat_sub, UInt32.toNat_add, UInt32.toNat_div,
      UInt32.reduceToNat, Nat.mod_eq_of_lt, word_sub]
  rw [hwords, yearOf_eq (by omega)]
  omega

theorem toNat_dayOfYear (hday : day.toNat < 146097)
    (hyear : (year.toNat : Int) = yearOf day.toNat) :
    ((day - (365 * year + year / 4 - year / 100)).toNat : Int) =
      day.toNat - daysBeforeYear (yearOf day.toNat) := by
  have hbounds := yearOf_bounds (n := day.toNat) (by omega)
  have hpast := dayOfYear_bounds (n := day.toNat) (by omega)
  rw [← hyear] at hbounds hpast ⊢
  unfold daysBeforeYear at *
  have hwords : (day - (365 * year + year / 4 - year / 100)).toNat =
      day.toNat - (365 * year.toNat + year.toNat / 4 - year.toNat / 100) := by
    simp (disch := omega) only [UInt32.toNat_sub, UInt32.toNat_add, UInt32.toNat_div,
      UInt32.toNat_mul, UInt32.reduceToNat, Nat.mod_eq_of_lt, word_sub]
  rw [hwords]
  omega

/-- A date that is computed in words is the date of its day. -/
theorem dateOfEra_eq (hn : 0 ≤ n ∧ n < 146097) :
    (((dateOfEra (UInt32.ofInt n)).1.toNat : Int), ((dateOfEra (UInt32.ofInt n)).2.1.toNat : Int),
      ((dateOfEra (UInt32.ofInt n)).2.2.toNat : Int)) =
      (yearOf n, if (5 * (n - daysBeforeYear (yearOf n)) + 2) / 153 < 10
        then (5 * (n - daysBeforeYear (yearOf n)) + 2) / 153 + 3
        else (5 * (n - daysBeforeYear (yearOf n)) + 2) / 153 - 9,
      n - daysBeforeYear (yearOf n) -
        daysBeforeMonth ((5 * (n - daysBeforeYear (yearOf n)) + 2) / 153) + 1) := by
  have hday : ((UInt32.ofInt n).toNat : Int) = n := by
    rw [toNat_ofInt (by omega)]
    omega
  unfold dateOfEra
  generalize UInt32.ofInt n = day at hday ⊢
  rw [← hday] at hn ⊢
  have hyear := @toNat_yearOfEra day (by omega)
  dsimp only
  generalize (day - day / 1460 + day / 36524 - day / 146096) / 365 = year at hyear ⊢
  have hpast := toNat_dayOfYear (by omega) hyear
  have hbounds := dayOfYear_bounds hn
  generalize day - (365 * year + year / 4 - year / 100) = past at hpast ⊢
  rw [← hpast] at hbounds ⊢
  have hmonth : ((5 * past + 2) / 153).toNat = (5 * past.toNat + 2) / 153 := by
    simp (disch := omega) only [UInt32.toNat_add, UInt32.toNat_div, UInt32.toNat_mul,
      UInt32.reduceToNat, Nat.mod_eq_of_lt]
  generalize (5 * past + 2) / 153 = month at hmonth ⊢
  have hmonthOf : (5 * (past.toNat : Int) + 2) / 153 = month.toNat := by omega
  have hdayOf := (dayOfMonth_bounds hbounds).2
  have hwords : (past - (153 * month + 2) / 5 + 1).toNat =
      past.toNat - (153 * month.toNat + 2) / 5 + 1 := by
    unfold daysBeforeMonth at hdayOf
    simp (disch := omega) only [UInt32.toNat_sub, UInt32.toNat_add, UInt32.toNat_div,
      UInt32.toNat_mul, UInt32.reduceToNat, Nat.mod_eq_of_lt, word_sub]
  rw [hmonthOf] at hdayOf ⊢
  refine Prod.ext hyear (Prod.ext ?_ ?_)
  · have hlate : month < 10 ↔ month.toNat < 10 := UInt32.lt_iff_toNat_lt
    have hconst : (3 : UInt32).toNat = 3 ∧ (9 : UInt32).toNat = 9 := ⟨rfl, rfl⟩
    dsimp only
    by_cases h : month.toNat < 10
    · rw [if_pos (hlate.mpr h), if_pos (by omega), UInt32.toNat_add, hconst.1]
      omega
    · rw [if_neg (mt hlate.mp h), if_neg (by omega), UInt32.toNat_sub, hconst.2]
      omega
  · dsimp only
    rw [hwords]
    unfold daysBeforeMonth at *
    omega

end

/-! ### The numbers of dates -/

section

variable {k n y z : Int} {m d : UInt32}

theorem value_era (hn : 0 < n) (k : Int) : (era k n).value = k / n := by
  rw [← tdiv_era hn k, era, value_ite]
  by_cases h : 0 ≤ k
  · rw [if_pos h, if_pos h, value_int]
  · rw [if_neg h, if_neg h, value_bind, value_int, value_int]

theorem fits_era (hn : 0 < n ∧ n ≤ 146097) (hk : -1073741824 ≤ k ∧ k < 2147483648) :
    (era k n).Fits 32 := by
  have hfloor := value_era hn.1 k
  have hquotient : -1073741824 ≤ k / n ∧ k / n < 2147483648 :=
    ⟨Int.le_ediv_of_mul_le hn.1 (by omega), Int.ediv_lt_of_lt_mul hn.1 (by omega)⟩
  unfold era at *
  rw [value_ite] at hfloor
  rw [fits_ite]
  refine ⟨fun h => ?_, fun h => ?_⟩
  · rw [if_pos h, value_int] at hfloor
    rw [fits_int, inRange_iff, hfloor]
    omega
  · rw [if_neg h, value_bind, value_int, value_int] at hfloor
    simp only [fits_bind, fits_int, value_int, inRange_iff, hfloor]
    omega

theorem early_eq (m : UInt32) : early m = if m.toNat ≤ 2 then 1 else 0 :=
  if_congr UInt32.le_iff_toNat_le rfl rfl

theorem sub_early_eq (y : Int) (m : UInt32) : y - early m = marchYear y m.toNat := by
  rw [early_eq]
  unfold marchYear
  split_ifs <;> omega

theorem value_monthShift (m : UInt32) : (monthShift m).value = if m > 2 then -3 else 9 :=
  value_ite _ _

theorem fits_monthShift (m : UInt32) : (monthShift m).Fits 32 := by
  unfold monthShift
  rw [fits_ite, fits_int, inRange_iff]
  exact ⟨fun _ => by decide, fun _ => fits_pure 9⟩

/-- What the code computes for a date, and when none of it overflows. -/
theorem signedDaysFromCivil_spec (hm : 1 ≤ m.toNat ∧ m.toNat ≤ 12)
    (hd : 1 ≤ d.toNat ∧ d.toNat ≤ 31) :
    (signedDaysFromCivil y m d).value = dayNumber y m.toNat d.toNat ∧
      (0 ≤ y → ((signedDaysFromCivil y m d).Fits 32 ↔
        dayNumber y m.toNat d.toNat + 719468 < 2147483648)) := by
  have hyoe : marchYear y m.toNat - marchYear y m.toNat / 400 * 400 =
      marchYear y m.toNat % 400 := by omega
  have hday := @toNat_dayOfEra (marchYear y m.toNat % 400) m d (by omega) hm hd
  have hmarch : y - 1 ≤ marchYear y m.toNat ∧ marchYear y m.toNat ≤ y := by
    unfold marchYear
    split_ifs <;> omega
  have hmonth : 0 ≤ daysBeforeMonth (marchMonth m.toNat) ∧
      daysBeforeMonth (marchMonth m.toNat) ≤ 337 := by
    unfold daysBeforeMonth marchMonth
    split_ifs <;> omega
  have hyear : 0 ≤ daysBeforeYear (marchYear y m.toNat % 400) ∧
      daysBeforeYear (marchYear y m.toNat % 400) ≤ 145731 := by
    unfold daysBeforeYear
    omega
  have hera := value_era (n := 400) (by decide) (marchYear y m.toNat)
  unfold signedDaysFromCivil
  simp only [value_bind, value_int, fits_bind, fits_int]
  simp only [sub_early_eq, value_monthShift, hera, hyoe]
  generalize dayOfEra (UInt32.ofInt (marchYear y m.toNat % 400)) m d
    (if m > 2 then -3 else 9) = doe at hday ⊢
  have hsigned := toInt_toInt32 (u := doe) (by omega)
  rw [hsigned, hday]
  unfold dayNumber
  refine ⟨by omega, fun hy => ⟨fun h => ?_, fun h => ?_⟩⟩
  · simp only [inRange_iff] at h
    omega
  · have hfloor := fits_era (k := marchYear y m.toNat) (n := 400) (by decide) (by omega)
    have hshift := fits_monthShift m
    simp only [inRange_iff, hfloor, hshift, true_and]
    omega

/-- What the code computes for a number, and when none of it overflows. -/
theorem signedCivilFromDays_spec (z : Int) :
    ((signedCivilFromDays z).value.1, ((signedCivilFromDays z).value.2.1.toNat : Int),
      ((signedCivilFromDays z).value.2.2.toNat : Int)) = dateOf z ∧
      (-719834 ≤ z → ((signedCivilFromDays z).Fits 32 ↔ z + 719468 < 2147483648)) := by
  have hdoe : z + 719468 - (z + 719468) / 146097 * 146097 = (z + 719468) % 146097 := by omega
  have hrange : 0 ≤ (z + 719468) % 146097 ∧ (z + 719468) % 146097 < 146097 := by omega
  have hdate := dateOfEra_eq hrange
  have hera := value_era (n := 146097) (by decide) (z + 719468)
  have hyear := yearOf_bounds hrange
  have hmonth := (dayOfMonth_bounds (dayOfYear_bounds hrange)).1
  unfold signedCivilFromDays dateOf
  simp only [value_bind, value_int, value_pure, fits_bind, fits_int, fits_pure]
  simp only [hera, hdoe]
  generalize dateOfEra (UInt32.ofInt ((z + 719468) % 146097)) = date at hdate ⊢
  generalize yearOf ((z + 719468) % 146097) = year at *
  generalize (z + 719468) % 146097 - daysBeforeYear year = dayOfYear at *
  generalize (5 * dayOfYear + 2) / 153 = month at *
  obtain ⟨hyoe, hdate⟩ := Prod.mk.inj hdate
  obtain ⟨hm2, hd2⟩ := Prod.mk.inj hdate
  have hsigned := toInt_toInt32 (u := date.1) (by omega)
  have hnext : early date.2.1 = if month < 10 then 0 else 1 := by
    rw [early_eq]
    split_ifs at hm2 ⊢ <;> omega
  rw [hsigned, hyoe, hnext, hm2, hd2]
  refine ⟨Prod.ext ?_ rfl, fun hz => ⟨fun h => (inRange_iff.mp h.1).2, fun h => ?_⟩⟩
  · dsimp only
    omega
  · have hfloor := fits_era (k := z + 719468) (n := 146097) (by decide) (by omega)
    simp only [inRange_iff, hfloor, true_and, and_true]
    split_ifs <;> omega

theorem days_of_isDate (h : IsDate y m.toNat d.toNat) :
    (1 ≤ m.toNat ∧ m.toNat ≤ 12) ∧ 1 ≤ d.toNat ∧ d.toNat ≤ 31 := by
  obtain ⟨hmonth, hday⟩ := h
  have hlast := daysInMonth_le y m.toNat
  omega

theorem value_signedDaysFromCivil (h : IsDate y m.toNat d.toNat) :
    (signedDaysFromCivil y m d).value = dayNumber y m.toNat d.toNat :=
  (signedDaysFromCivil_spec (days_of_isDate h).1 (days_of_isDate h).2).1

/-- The code goes from a date to its number and back. -/
theorem value_signedCivilFromDays (h : IsDate y m.toNat d.toNat) :
    (signedCivilFromDays (dayNumber y m.toNat d.toNat)).value = (y, m, d) := by
  have hdate := (signedCivilFromDays_spec (dayNumber y m.toNat d.toNat)).1
  rw [dateOf_dayNumber h] at hdate
  obtain ⟨hy, hdate⟩ := Prod.mk.inj hdate
  obtain ⟨hm, hd⟩ := Prod.mk.inj hdate
  exact Prod.ext hy (Prod.ext (UInt32.toNat_inj.mp (Int.ofNat_inj.mp hm))
    (UInt32.toNat_inj.mp (Int.ofNat_inj.mp hd)))

/-- No number of the code wraps to another one for a date. -/
theorem value_eq_daysFromCivil (h : IsDate y m.toNat d.toNat) :
    (signedDaysFromCivil y m d).value = daysFromCivil y m.toNat d.toNat := by
  have hseconds := daysFromCivil_eq (y := y) (d := d.toNat) h.1 0 0 0
  rw [seconds_eq_dayNumber] at hseconds
  rw [value_signedDaysFromCivil h]
  dsimp only at hseconds
  omega

theorem value_eq_civilFromDays (z : Int) :
    ((signedCivilFromDays z).value.1, ((signedCivilFromDays z).value.2.1.toNat : Int),
      ((signedCivilFromDays z).value.2.2.toNat : Int)) = civilFromDays z := by
  have hday : z * 86400 / 86400 = z := by omega
  have hcivil := civilFromDays_eq (z * 86400)
  rw [civil_eq_dateOf, hday] at hcivil
  rw [hcivil, (signedCivilFromDays_spec z).1]

/-- Where the code overflows for a date: its number does not fit when it is counted from the first
of March of the year 0. -/
theorem fits_iff (h : IsDate y m.toNat d.toNat) (hy : 0 ≤ y) :
    ((signedDaysFromCivil y m d).Fits 32 ∧
      (signedCivilFromDays (signedDaysFromCivil y m d).value).Fits 32) ↔
        dayNumber y m.toNat d.toNat + 719468 < 2147483648 := by
  have hrange := days_of_isDate h
  have hdays := @signedDaysFromCivil_spec y m d hrange.1 hrange.2
  have hlow : -719834 ≤ dayNumber y m.toNat d.toNat := by
    unfold dayNumber daysBeforeYear daysBeforeMonth marchYear marchMonth
    split_ifs <;> omega
  rw [hdays.2 hy, hdays.1, (signedCivilFromDays_spec _).2 hlow, and_self_iff]

theorem dayNumber_lt (h : IsDate y m.toNat d.toNat) (hy : y ≤ 9999) :
    dayNumber y m.toNat d.toNat < 3000000 := by
  have hrange := days_of_isDate h
  unfold dayNumber daysBeforeYear daysBeforeMonth marchYear marchMonth
  split_ifs <;> omega

/-- Dates are numbered one after another from the first of January 1970, they are found by their
numbers, and in the years of four digits the code gets there without an overflow. -/
theorem civilFromDays_exact (h : IsDate y m.toNat d.toNat) :
    (signedCivilFromDays (signedDaysFromCivil y m d).value).value = (y, m, d) ∧
      (∀ (y' : Int) (m' d' : UInt32), nextDate y m.toNat d.toNat = (y', ↑m'.toNat, ↑d'.toNat) →
        (signedDaysFromCivil y' m' d').value = (signedDaysFromCivil y m d).value + 1) ∧
      (signedDaysFromCivil 1970 1 1).value = 0 ∧
      (0 ≤ y ∧ y ≤ 9999 → (signedDaysFromCivil y m d).Fits 32 ∧
        (signedCivilFromDays (signedDaysFromCivil y m d).value).Fits 32) := by
  refine ⟨?_, fun y' m' d' hnext => ?_, by decide, fun hy => (fits_iff h hy.1).mpr ?_⟩
  · rw [value_signedDaysFromCivil h, value_signedCivilFromDays h]
  · have hdate := isDate_nextDate h
    have hnumber := dayNumber_nextDate h
    rw [hnext] at hdate hnumber
    rw [value_signedDaysFromCivil hdate, value_signedDaysFromCivil h, hnumber]
  · have hlast := dayNumber_lt h hy.2
    omega

/-- The day before a leap day. -/
theorem civilFromDays_exact_leap :
    (signedCivilFromDays (signedDaysFromCivil 2024 2 28).value).value = (2024, 2, 28) ∧
      (signedDaysFromCivil 2024 2 29).value = (signedDaysFromCivil 2024 2 28).value + 1 ∧
      (signedDaysFromCivil 2024 2 28).Fits 32 := by
  have hexact := civilFromDays_exact (y := 2024) (m := 2) (d := 28) ⟨by decide, by decide⟩
  exact ⟨hexact.1, hexact.2.1 2024 2 29 (by decide), (hexact.2.2.2 (by decide)).1⟩

end

end ExamVan.Helpers
