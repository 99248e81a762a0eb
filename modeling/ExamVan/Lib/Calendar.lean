import Mathlib.Tactic.TypeStar

/-!
# Calendar dates

The proleptic Gregorian calendar in years that begin in March, so that a leap day is the last day of
its year. 400 of these years make an era of 146097 days. Day 0 is the first of January 1970.
-/

namespace Calendar

/-- A date and a time of day, as `gmtime_r` splits a number of seconds. -/
structure Civil where
  year : Int
  month : Int
  day : Int
  hour : Int
  minute : Int
  second : Int
  deriving DecidableEq

/-- The days from the beginning of an era to the beginning of one of its years. -/
def daysBeforeYear (year : Int) : Int := 365 * year + year / 4 - year / 100

/-- The days from the first of March to the first of a month; March is month 0. -/
def daysBeforeMonth (month : Int) : Int := (153 * month + 2) / 5

/-- The year of an era that one of its days is in: the centuries, the groups of four years and the
years that are over. The last century and the last year of a group can be a day longer. -/
def yearOf (day : Int) : Int :=
  let century := min (day / 36524) 3
  let group := (day - 36524 * century) / 1461
  let year := min ((day - 36524 * century - 1461 * group) / 365) 3
  100 * century + 4 * group + year

/-- `gmtime_r` -/
def civil (seconds : Int) : Civil :=
  let day := seconds / 86400 + 719468
  let year := yearOf (day % 146097)
  let dayOfYear := day % 146097 - daysBeforeYear year
  let month := (5 * dayOfYear + 2) / 153
  { year := year + 400 * (day / 146097) + if month < 10 then 0 else 1
    month := if month < 10 then month + 3 else month - 9
    day := dayOfYear - daysBeforeMonth month + 1
    hour := seconds % 86400 / 3600
    minute := seconds % 3600 / 60
    second := seconds % 60 }

/-- `timegm` -/
def seconds (t : Civil) : Int :=
  let year := if t.month ≤ 2 then t.year - 1 else t.year
  let month := if t.month ≤ 2 then t.month + 9 else t.month - 3
  let day := year / 400 * 146097 + daysBeforeYear (year % 400) + daysBeforeMonth month + t.day - 1
  (day - 719468) * 86400 + t.hour * 3600 + t.minute * 60 + t.second

def isLeap (year : Int) : Bool := (year % 4 = 0 && year % 100 ≠ 0) || year % 400 = 0

def daysInMonth (year month : Int) : Int :=
  if month = 2 then if isLeap year then 29 else 28
  else if month = 4 ∨ month = 6 ∨ month = 9 ∨ month = 11 then 30
  else 31

theorem one_le_daysInMonth (year month : Int) : 1 ≤ daysInMonth year month := by
  unfold daysInMonth
  split
  · split <;> decide
  · split <;> decide

theorem daysInMonth_le (year month : Int) : daysInMonth year month ≤ 31 := by
  unfold daysInMonth
  split
  · split <;> decide
  · split <;> decide

variable {n : Int}

theorem yearOf_bounds (hn : 0 ≤ n ∧ n < 146097) : 0 ≤ yearOf n ∧ yearOf n < 400 := by
  unfold yearOf
  dsimp only
  omega

/-- A day of an era is in the year that it is assigned to. -/
theorem dayOfYear_bounds (hn : 0 ≤ n ∧ n < 146097) :
    0 ≤ n - daysBeforeYear (yearOf n) ∧ n - daysBeforeYear (yearOf n) < 366 := by
  have hbefore : ∀ century group year : Int, 0 ≤ group ∧ group < 25 → 0 ≤ year ∧ year < 4 →
      daysBeforeYear (100 * century + 4 * group + year) =
        36524 * century + 1461 * group + 365 * year := by
    intro century group year hgroup hyear
    unfold daysBeforeYear
    omega
  unfold yearOf
  dsimp only
  rw [hbefore _ _ _ (by omega) (by omega)]
  omega

/-- A day of a year is in the month that it is assigned to. -/
theorem dayOfMonth_bounds (hn : 0 ≤ n ∧ n < 366) :
    (0 ≤ (5 * n + 2) / 153 ∧ (5 * n + 2) / 153 < 12) ∧
      0 ≤ n - daysBeforeMonth ((5 * n + 2) / 153) ∧
      n - daysBeforeMonth ((5 * n + 2) / 153) < 31 := by
  unfold daysBeforeMonth
  omega

/-- A number of seconds is split into the fields of a date. -/
structure Civil.Valid (t : Civil) : Prop where
  month : 1 ≤ t.month ∧ t.month ≤ 12
  day : 1 ≤ t.day ∧ t.day ≤ 31
  hour : 0 ≤ t.hour ∧ t.hour ≤ 23
  minute : 0 ≤ t.minute ∧ t.minute ≤ 59
  second : 0 ≤ t.second ∧ t.second ≤ 59

theorem valid_civil (s : Int) : (civil s).Valid := by
  have hday := dayOfYear_bounds (n := (s / 86400 + 719468) % 146097) (by omega)
  have hmonth := dayOfMonth_bounds hday
  unfold civil
  constructor <;> dsimp only <;> omega

/-- The day of a date that is given by its era, its year of the era and its day of the year. -/
theorem seconds_eq {era year dayOfYear month : Int} (hour minute second : Int)
    (hyear : 0 ≤ year ∧ year < 400) (hmonth : 0 ≤ month ∧ month < 12) :
    seconds
        { year := year + 400 * era + if month < 10 then 0 else 1
          month := if month < 10 then month + 3 else month - 9
          day := dayOfYear - daysBeforeMonth month + 1
          hour, minute, second } =
      (era * 146097 + daysBeforeYear year + dayOfYear - 719468) * 86400 + hour * 3600 +
        minute * 60 + second := by
  have hera : (year + 400 * era) / 400 = era ∧ (year + 400 * era) % 400 = year := by omega
  unfold seconds
  dsimp only
  by_cases hearly : month < 10
  · rw [if_pos hearly, if_pos hearly, if_neg (by omega), if_neg (by omega), Int.add_zero,
      Int.add_sub_cancel, hera.1, hera.2]
    omega
  · rw [if_neg hearly, if_neg hearly, if_pos (by omega), if_pos (by omega), Int.add_sub_cancel,
      Int.sub_add_cancel, hera.1, hera.2]
    omega

/-- `timegm` undoes `gmtime_r`. -/
theorem seconds_civil (s : Int) : seconds (civil s) = s := by
  have hera : 0 ≤ (s / 86400 + 719468) % 146097 ∧ (s / 86400 + 719468) % 146097 < 146097 := by omega
  have hmonth := (dayOfMonth_bounds (dayOfYear_bounds hera)).1
  unfold civil
  dsimp only
  rw [seconds_eq _ _ _ (yearOf_bounds hera) hmonth]
  omega

/-- The years that a clock of 64 bits shows, in nanoseconds from 1970. -/
theorem year_bounds {s : Int} (hs : -9223372037 ≤ s ∧ s ≤ 9223372037) :
    1600 ≤ (civil s).year ∧ (civil s).year ≤ 2400 := by
  have hera : 0 ≤ (s / 86400 + 719468) % 146097 ∧ (s / 86400 + 719468) % 146097 < 146097 := by omega
  have hyear := yearOf_bounds hera
  unfold civil
  dsimp only
  omega

/-! ### Dates -/

def IsDate (year month day : Int) : Prop :=
  (1 ≤ month ∧ month ≤ 12) ∧ 1 ≤ day ∧ day ≤ daysInMonth year month

/-- The date that follows. -/
def nextDate (year month day : Int) : Int × Int × Int :=
  if day < daysInMonth year month then (year, month, day + 1)
  else if month < 12 then (year, month + 1, 1)
  else (year + 1, 1, 1)

theorem isDate_nextDate {year month day : Int} (h : IsDate year month day) :
    IsDate (nextDate year month day).1 (nextDate year month day).2.1 (nextDate year month day).2.2 := by
  obtain ⟨hmonth, hday⟩ := h
  unfold nextDate
  by_cases hmore : day < daysInMonth year month
  · rw [if_pos hmore]
    have hfirst : 1 ≤ day + 1 := by omega
    exact ⟨hmonth, hfirst, hmore⟩
  rw [if_neg hmore]
  by_cases hdecember : month < 12
  · rw [if_pos hdecember]
    have hnext : 1 ≤ month + 1 ∧ month + 1 ≤ 12 := by omega
    exact ⟨hnext, Int.le_refl 1, one_le_daysInMonth year (month + 1)⟩
  · rw [if_neg hdecember]
    have hjanuary : (1 : Int) ≤ 1 ∧ (1 : Int) ≤ 12 := by decide
    exact ⟨hjanuary, Int.le_refl 1, one_le_daysInMonth (year + 1) 1⟩

/-- The year from March to February that a month is in. -/
def marchYear (year month : Int) : Int := if month ≤ 2 then year - 1 else year

def marchMonth (month : Int) : Int := if month ≤ 2 then month + 9 else month - 3

/-- The days from the first of January 1970. -/
def dayNumber (year month day : Int) : Int :=
  marchYear year month / 400 * 146097 + daysBeforeYear (marchYear year month % 400) +
    daysBeforeMonth (marchMonth month) + day - 1 - 719468

def dateOf (n : Int) : Int × Int × Int :=
  let day := n + 719468
  let year := yearOf (day % 146097)
  let dayOfYear := day % 146097 - daysBeforeYear year
  let month := (5 * dayOfYear + 2) / 153
  (year + 400 * (day / 146097) + if month < 10 then 0 else 1,
    if month < 10 then month + 3 else month - 9, dayOfYear - daysBeforeMonth month + 1)

theorem seconds_eq_dayNumber (t : Civil) : seconds t =
    dayNumber t.year t.month t.day * 86400 + t.hour * 3600 + t.minute * 60 + t.second := rfl

theorem civil_eq_dateOf (s : Int) :
    ((civil s).year, (civil s).month, (civil s).day) = dateOf (s / 86400) := rfl

variable {year month day dayOfYear : Int}

theorem isLeap_iff : isLeap year = true ↔ (year % 4 = 0 ∧ year % 100 ≠ 0) ∨ year % 400 = 0 := by
  simp [isLeap]

/-- The days of an era in front of a year that is given by its century, its group of four years and
its place there. -/
theorem daysBeforeYear_eq {century group place : Int} (hgroup : 0 ≤ group ∧ group < 25)
    (hplace : 0 ≤ place ∧ place < 4) : daysBeforeYear (100 * century + 4 * group + place) =
      36524 * century + 1461 * group + 365 * place := by
  unfold daysBeforeYear
  omega

/-- A day of a year from March to February lies in that year of its era. -/
theorem yearOf_eq_of_lt (hyear : 0 ≤ year ∧ year < 400)
    (hday : 0 ≤ dayOfYear ∧ dayOfYear < if isLeap (year + 1) then 366 else 365) :
    yearOf (daysBeforeYear year + dayOfYear) = year ∧
      0 ≤ daysBeforeYear year + dayOfYear ∧ daysBeforeYear year + dayOfYear < 146097 := by
  obtain ⟨century, group, place, rfl, hcentury, hgroup, hplace⟩ : ∃ century group place : Int,
      year = 100 * century + 4 * group + place ∧ (0 ≤ century ∧ century < 4) ∧
        (0 ≤ group ∧ group < 25) ∧ 0 ≤ place ∧ place < 4 :=
    ⟨year / 100, year % 100 / 4, year % 4, by omega, by omega, by omega, by omega⟩
  -- only the last year of a group has a leap day, and that of a century only in the last century
  have hlong : dayOfYear < 365 ∨ (dayOfYear = 365 ∧ place = 3 ∧ (group < 24 ∨ century = 3)) := by
    by_cases hleap : isLeap (100 * century + 4 * group + place + 1) = true
    · rw [if_pos hleap] at hday
      have hmod := isLeap_iff.mp hleap
      omega
    · rw [if_neg hleap] at hday
      exact .inl hday.2
  have hcenturyOf : min ((36524 * century + 1461 * group + 365 * place + dayOfYear) / 36524) 3 =
      century := by omega
  have hgroupOf : (36524 * century + 1461 * group + 365 * place + dayOfYear - 36524 * century) /
      1461 = group := by omega
  have hplaceOf : min ((36524 * century + 1461 * group + 365 * place + dayOfYear - 36524 * century -
      1461 * group) / 365) 3 = place := by omega
  rw [daysBeforeYear_eq hgroup hplace]
  refine ⟨?_, by omega, by omega⟩
  unfold yearOf
  dsimp only
  rw [hcenturyOf, hgroupOf, hplaceOf]

/-- The days of a month; March is month 0, and its last month is a day longer in a leap year. -/
theorem month_eq_of_lt {month e : Int} (hmonth : 0 ≤ month ∧ month < 12)
    (he : 0 ≤ e ∧ e <
      if month = 11 then 29 else daysBeforeMonth (month + 1) - daysBeforeMonth month) :
    (5 * (daysBeforeMonth month + e) + 2) / 153 = month := by
  unfold daysBeforeMonth at *
  obtain h | h | h | h | h | h | h | h | h | h | h | h : month = 0 ∨ month = 1 ∨ month = 2 ∨
      month = 3 ∨ month = 4 ∨ month = 5 ∨ month = 6 ∨ month = 7 ∨ month = 8 ∨ month = 9 ∨
      month = 10 ∨ month = 11 := by omega
  all_goals
    subst h
    split at he <;> omega

/-- The leap day is the last day of a year that ends in a leap year. -/
theorem isLeap_marchYear (year : Int) : isLeap (marchYear year 2 % 400 + 1) = isLeap year := by
  rw [Bool.eq_iff_iff, isLeap_iff, isLeap_iff, marchYear, if_pos (by decide)]
  omega

/-- Where a date stands in its month and in its year from March to February. -/
theorem bounds_of_isDate (h : IsDate year month day) :
    (0 ≤ marchMonth month ∧ marchMonth month < 12) ∧
      (0 ≤ day - 1 ∧ day - 1 < if marchMonth month = 11 then 29
        else daysBeforeMonth (marchMonth month + 1) - daysBeforeMonth (marchMonth month)) ∧
      (0 ≤ daysBeforeMonth (marchMonth month) + (day - 1) ∧
        daysBeforeMonth (marchMonth month) + (day - 1) <
          if isLeap (marchYear year month % 400 + 1) then 366 else 365) := by
  obtain ⟨hmonth, hday⟩ := h
  have hyear : (365 : Int) ≤ if isLeap (marchYear year month % 400 + 1) then 366 else 365 := by
    split <;> decide
  by_cases hfebruary : month = 2
  · subst hfebruary
    have hlast : marchMonth 2 = 11 := rfl
    have hbefore : daysBeforeMonth 11 = 337 := rfl
    rw [isLeap_marchYear, hlast, if_pos rfl, hbefore]
    unfold daysInMonth at hday
    rw [if_pos rfl] at hday
    split at hday
    · next hleap =>
      rw [if_pos hleap]
      omega
    · next hleap =>
      rw [if_neg hleap]
      omega
  · unfold daysInMonth at hday
    rw [if_neg hfebruary] at hday
    have hm : marchMonth month ≠ 11 := by
      unfold marchMonth
      split <;> omega
    rw [if_neg hm]
    unfold daysBeforeMonth
    by_cases hjanuary : month ≤ 2
    · have hmarch : marchMonth month = 10 := by
        rw [marchMonth, if_pos hjanuary]
        omega
      rw [hmarch]
      split at hday <;> omega
    · have hmarch : marchMonth month = month - 3 := if_neg hjanuary
      rw [hmarch]
      obtain h | h | h | h | h | h | h | h | h | h : month = 3 ∨ month = 4 ∨ month = 5 ∨ month = 6 ∨
          month = 7 ∨ month = 8 ∨ month = 9 ∨ month = 10 ∨ month = 11 ∨ month = 12 := by omega
      all_goals
        subst h
        split at hday <;> omega

/-- A date is found by its number. -/
theorem dateOf_dayNumber (h : IsDate year month day) :
    dateOf (dayNumber year month day) = (year, month, day) := by
  obtain ⟨hmonth, hday, hlength⟩ := bounds_of_isDate h
  have hyear : 0 ≤ marchYear year month % 400 ∧ marchYear year month % 400 < 400 := by omega
  obtain ⟨hyearOf, hera⟩ := yearOf_eq_of_lt hyear hlength
  have hmonthOf := month_eq_of_lt hmonth hday
  have hsplit : dayNumber year month day + 719468 = marchYear year month / 400 * 146097 +
      (daysBeforeYear (marchYear year month % 400) +
        (daysBeforeMonth (marchMonth month) + (day - 1))) := by
    unfold dayNumber
    omega
  have hmod : (dayNumber year month day + 719468) % 146097 =
      daysBeforeYear (marchYear year month % 400) +
        (daysBeforeMonth (marchMonth month) + (day - 1)) := by omega
  have hdiv : (dayNumber year month day + 719468) / 146097 = marchYear year month / 400 := by omega
  have hpast : daysBeforeYear (marchYear year month % 400) +
      (daysBeforeMonth (marchMonth month) + (day - 1)) - daysBeforeYear (marchYear year month % 400) =
        daysBeforeMonth (marchMonth month) + (day - 1) := by omega
  unfold dateOf
  dsimp only
  rw [hmod, hdiv, hyearOf, hpast, hmonthOf]
  have hback : (marchMonth month < 10 ↔ ¬ month ≤ 2) := by
    have hrange := h.1
    unfold marchMonth
    split <;> omega
  by_cases hearly : month ≤ 2
  · rw [if_neg fun hlt => hback.mp hlt hearly, if_neg fun hlt => hback.mp hlt hearly]
    simp only [marchYear, marchMonth, if_pos hearly]
    refine Prod.ext ?_ (Prod.ext ?_ ?_) <;> dsimp only <;> omega
  · rw [if_pos (hback.mpr hearly), if_pos (hback.mpr hearly)]
    simp only [marchYear, marchMonth, if_neg hearly]
    refine Prod.ext ?_ (Prod.ext ?_ ?_) <;> dsimp only <;> omega

/-- The first day of a year from March to February, from the beginning of all eras. -/
def firstDay (year : Int) : Int := year / 400 * 146097 + daysBeforeYear (year % 400)

theorem firstDay_eq {e c g p : Int} (hc : 0 ≤ c ∧ c < 4) (hg : 0 ≤ g ∧ g < 25)
    (hp : 0 ≤ p ∧ p < 4) : firstDay (400 * e + (100 * c + 4 * g + p)) =
      e * 146097 + (36524 * c + 1461 * g + 365 * p) := by
  have hdiv : (400 * e + (100 * c + 4 * g + p)) / 400 = e := by omega
  have hmod : (400 * e + (100 * c + 4 * g + p)) % 400 = 100 * c + 4 * g + p := by omega
  rw [firstDay, hdiv, hmod, daysBeforeYear_eq hg hp]

/-- A year from March to February has the leap day of the year that it ends in. -/
theorem firstDay_succ (year : Int) :
    firstDay (year + 1) = firstDay year + if isLeap (year + 1) then 366 else 365 := by
  obtain ⟨e, c, g, p, rfl, hc, hg, hp⟩ : ∃ e c g p : Int, year = 400 * e + (100 * c + 4 * g + p) ∧
      (0 ≤ c ∧ c < 4) ∧ (0 ≤ g ∧ g < 25) ∧ 0 ≤ p ∧ p < 4 :=
    ⟨year / 400, year % 400 / 100, year % 100 / 4, year % 4, by omega, by omega, by omega, by omega⟩
  have hleap := @isLeap_iff (400 * e + (100 * c + 4 * g + p) + 1)
  rw [firstDay_eq hc hg hp]
  -- the next year is in the same group, in the same century, in the same era, or behind it
  by_cases h1 : p < 3
  · have hnext := firstDay_eq (e := e) hc hg (by omega : 0 ≤ p + 1 ∧ p + 1 < 4)
    rw [if_neg (by rw [hleap]; omega), Int.add_assoc, Int.add_assoc _ p, hnext]
    omega
  by_cases h2 : g < 24
  · have hnext := firstDay_eq (e := e) (p := 0) hc (by omega : 0 ≤ g + 1 ∧ g + 1 < 25) (by decide)
    have hyear : 400 * e + (100 * c + 4 * g + p) + 1 = 400 * e + (100 * c + 4 * (g + 1) + 0) := by
      omega
    rw [if_pos (by rw [hleap]; omega), hyear, hnext]
    omega
  by_cases h3 : c < 3
  · have hnext := firstDay_eq (e := e) (g := 0) (p := 0) (by omega : 0 ≤ c + 1 ∧ c + 1 < 4)
      (by decide) (by decide)
    have hyear : 400 * e + (100 * c + 4 * g + p) + 1 = 400 * e + (100 * (c + 1) + 4 * 0 + 0) := by
      omega
    rw [if_neg (by rw [hleap]; omega), hyear, hnext]
    omega
  · have hnext := firstDay_eq (e := e + 1) (c := 0) (g := 0) (p := 0) (by decide) (by decide)
      (by decide)
    have hyear : 400 * e + (100 * c + 4 * g + p) + 1 = 400 * (e + 1) + (100 * 0 + 4 * 0 + 0) := by
      omega
    rw [if_pos (by rw [hleap]; omega), hyear, hnext]
    omega

theorem dayNumber_eq (year month day : Int) : dayNumber year month day =
    firstDay (marchYear year month) + daysBeforeMonth (marchMonth month) + day - 1 - 719468 := rfl

/-- The days of a month that no year from March to February ends with. -/
theorem daysBeforeMonth_succ (hmonth : 1 ≤ month ∧ month ≤ 12) (hlast : month ≠ 2) :
    daysBeforeMonth (marchMonth month + 1) =
      daysBeforeMonth (marchMonth month) + daysInMonth year month := by
  unfold daysInMonth
  rw [if_neg hlast]
  obtain h | h | h | h | h | h | h | h | h | h | h : month = 1 ∨ month = 3 ∨ month = 4 ∨ month = 5 ∨
      month = 6 ∨ month = 7 ∨ month = 8 ∨ month = 9 ∨ month = 10 ∨ month = 11 ∨ month = 12 := by omega
  all_goals
    subst h
    rfl

/-- The date that follows has the number that follows. -/
theorem dayNumber_nextDate (h : IsDate year month day) :
    dayNumber (nextDate year month day).1 (nextDate year month day).2.1 (nextDate year month day).2.2 =
      dayNumber year month day + 1 := by
  obtain ⟨hmonth, hday⟩ := h
  unfold nextDate
  by_cases hmore : day < daysInMonth year month
  · rw [if_pos hmore]
    dsimp only
    rw [dayNumber_eq, dayNumber_eq]
    omega
  have hend : day = daysInMonth year month := by omega
  rw [if_neg hmore, dayNumber_eq year month, hend]
  by_cases hfebruary : month = 2
  · subst hfebruary
    have hyear := firstDay_succ (year - 1)
    rw [Int.sub_add_cancel] at hyear
    have hstart : daysBeforeMonth 11 = 337 ∧ daysBeforeMonth 0 = 0 := ⟨rfl, rfl⟩
    rw [if_pos (by decide), dayNumber_eq]
    show firstDay year + daysBeforeMonth 0 + 1 - 1 - 719468 =
      firstDay (year - 1) + daysBeforeMonth 11 + daysInMonth year 2 - 1 - 719468 + 1
    unfold daysInMonth
    rw [if_pos rfl, hstart.1, hstart.2]
    by_cases hleap : isLeap year = true
    · rw [if_pos hleap] at hyear ⊢
      omega
    · rw [if_neg hleap] at hyear ⊢
      omega
  have hlength := @daysBeforeMonth_succ year month hmonth hfebruary
  by_cases hdecember : month < 12
  · rw [if_pos hdecember]
    dsimp only
    have hyear : marchYear year (month + 1) = marchYear year month := by
      unfold marchYear
      split <;> split <;> omega
    have hnext : marchMonth (month + 1) = marchMonth month + 1 := by
      unfold marchMonth
      split <;> split <;> omega
    rw [dayNumber_eq, hyear, hnext, hlength]
    omega
  · have hmonth : month = 12 := by omega
    subst hmonth
    rw [if_neg hdecember]
    dsimp only
    have hyear : marchYear (year + 1) 1 = marchYear year 12 := Int.add_sub_cancel year 1
    have hnext : marchMonth 1 = marchMonth 12 + 1 := rfl
    rw [dayNumber_eq, hyear, hnext, hlength]
    omega

end Calendar
