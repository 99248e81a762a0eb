import ExamVan.Helpers.StrictTimes

/-!
# Local times

The texts that `wib_to_utc_iso` accepts, and the indices that it uses. It takes an hour, a minute or a
second that is no number for -1, and reads both digits of a second behind a colon at the end.
-/

namespace ExamVan.Helpers

open ByteString Calendar Indexed

/-! ### Local times as text -/

def dateText (t : Civil) : Bytes :=
  fourDigits t.year ++ chr '-' :: (twoDigits t.month ++ chr '-' :: twoDigits t.day)

/-- A date, and an hour, a minute and perhaps a second of two bytes each. -/
def localText (t : Civil) (hour minute : Bytes) (second : Option Bytes) : Bytes :=
  dateText t ++ chr ' ' :: (hour ++ chr ':' :: (minute ++
    match second with
    | none => []
    | some p => chr ':' :: p))

/-- A date from 2000 to 2100. -/
structure WibDay (t : Civil) : Prop where
  year : 2000 ≤ t.year ∧ t.year ≤ 2100
  month : 1 ≤ t.month ∧ t.month ≤ 12
  day : 1 ≤ t.day ∧ t.day ≤ daysInMonth t.year t.month

/-- The text is `YYYY-MM-DD HH:MM` or `YYYY-MM-DD HH:MM:SS` of this local time. -/
structure WibTime (s : Bytes) (t : Civil) : Prop where
  day : WibDay t
  hour : 0 ≤ t.hour ∧ t.hour ≤ 23
  minute : 0 ≤ t.minute ∧ t.minute ≤ 59
  second : 0 ≤ t.second ∧ t.second ≤ 59
  text : s = localText t (twoDigits t.hour) (twoDigits t.minute) none ∨
    s = localText t (twoDigits t.hour) (twoDigits t.minute) (some (twoDigits t.second))

/-- Seven hours before a local time, without its seconds. -/
def utcText (t : Civil) : Bytes := strftime (civil (seconds { t with second := 0 } - 7 * 3600))

/-- The text is of a local time, and the other is of the same time in UTC. -/
def InUtc (s u : Bytes) : Prop := ∃ t, WibTime s t ∧ u = utcText t

/-- The shape of a local time, with two bytes each for the hour, the minute and the second that are
within their limits or no two digits. -/
structure WibShape (s : Bytes) (t : Civil) (h mi : Bytes) (sec : Option Bytes) : Prop where
  day : WibDay t
  hour : UpTo 23 h ∨ NoDigits h
  minute : UpTo 59 mi ∨ NoDigits mi
  second : ∀ p ∈ sec, UpTo 59 p ∨ NoDigits p
  text : s = localText t h mi sec

/-- The shape of a local time, with two bytes that are no two digits in place of a number. -/
def NoNumber (s : Bytes) : Prop :=
  ∃ t hour minute second, WibShape s t hour minute second ∧
    (NoDigits hour ∨ NoDigits minute ∨ ∃ p ∈ second, NoDigits p)

/-- The shape of a local minute, and a colon behind it. -/
def EndsInColon (s : Bytes) : Prop :=
  ∃ t hour minute, WibShape s.dropLast t hour minute none ∧ s.getLast? = some (chr ':')

section

variable {s u : Bytes} {t : Civil} {hour minute : Bytes} {second : Option Bytes}

/-! ### Sixteen bytes -/

theorem exists_cells (h : 16 ≤ s.length) :
    ∃ c0 c1 c2 c3 c4 c5 c6 c7 c8 c9 c10 c11 c12 c13 c14 c15 rest,
      s = [c0, c1, c2, c3, c4, c5, c6, c7, c8, c9, c10, c11, c12, c13, c14, c15] ++ rest := by
  obtain ⟨cells, rest, hlength, rfl⟩ : ∃ cells rest : Bytes, cells.length = 16 ∧ s = cells ++ rest :=
    ⟨s.take 16, s.drop 16, by simpa using h, (List.take_append_drop 16 s).symm⟩
  match cells, hlength with
  | [c0, c1, c2, c3, c4, c5, c6, c7, c8, c9, c10, c11, c12, c13, c14, c15], _ =>
      exact ⟨c0, c1, c2, c3, c4, c5, c6, c7, c8, c9, c10, c11, c12, c13, c14, c15, rest, rfl⟩

/-- The text ends behind its minutes or behind its seconds. -/
theorem value_readSeconds (h : 16 ≤ s.length) :
    (readSeconds s).value = some s.length ↔ s.length = 16 ∨
      (s.length = 19 ∧ s[16]?.getD 0 = chr ':' ∧ pair (s[17]?.getD 0) (s[18]?.getD 0) ≤ 59) := by
  have hread : (Indexed.read s 16).value = s[16]?.getD 0 := rfl
  have htwo : (two s 17).value = pair (s[17]?.getD 0) (s[18]?.getD 0) := rfl
  simp only [readSeconds, value_ite, value_bind, value_pure]
  rw [hread, htwo]
  by_cases hlong : 16 < s.length
  · rw [if_pos hlong]
    by_cases hcolon : s[16]?.getD 0 = chr ':'
    · simp only [hcolon, if_true, true_and]
      split_ifs with hlate
      · simp only [false_iff]
        omega
      · simp only [Option.some.injEq]
        omega
    · simp only [hcolon, if_false, false_and, and_false, or_false, Option.some.injEq]
      omega
  · rw [if_neg hlong]
    simp only [Option.some.injEq]
    omega

theorem localText_eq_iff {c0 c1 c2 c3 c4 c5 c6 c7 c8 c9 c10 c11 c12 c13 c14 c15 a b a' b' : UInt8}
    {rest : Bytes} :
    [c0, c1, c2, c3, c4, c5, c6, c7, c8, c9, c10, c11, c12, c13, c14, c15] ++ rest =
        localText t [a, b] [a', b'] second ↔
      [c0, c1, c2, c3] = fourDigits t.year ∧ c4 = chr '-' ∧ [c5, c6] = twoDigits t.month ∧
        c7 = chr '-' ∧ [c8, c9] = twoDigits t.day ∧ c10 = chr ' ' ∧ (c11 = a ∧ c12 = b) ∧
        c13 = chr ':' ∧ (c14 = a' ∧ c15 = b') ∧ rest = second.elim [] (chr ':' :: ·) := by
  cases second with
  | none => simp [localText, dateText, fourDigits, twoDigits, and_assoc]
  | some p => simp [localText, dateText, fourDigits, twoDigits, and_assoc]

/-- The seconds of a local time end the text. -/
theorem seconds_iff {cells rest : Bytes} (h : cells.length = 16) :
    (readSeconds (cells ++ rest)).value = some (cells ++ rest).length ↔
      ∃ second : Option Bytes, rest = second.elim [] (chr ':' :: ·) ∧
        ∀ p ∈ second, UpTo 59 p ∨ NoDigits p := by
  have hlength : (cells ++ rest).length = 16 + rest.length := by rw [List.length_append, h]
  have hget : ∀ i, (cells ++ rest)[16 + i]? = rest[i]? := by
    intro i
    rw [List.getElem?_append_right (by omega), h]
    congr 1
    omega
  have h16 := hget 0
  have h17 := hget 1
  have h18 := hget 2
  rw [value_readSeconds (by omega), h16, h17, h18, hlength]
  constructor
  · rintro (hshort | ⟨hlong, hcolon, hpair⟩)
    · exact ⟨none, List.length_eq_zero_iff.mp (by omega), nofun⟩
    · obtain ⟨c, a, b, rfl⟩ := List.length_eq_three.mp (by omega : rest.length = 3)
      obtain rfl : c = chr ':' := hcolon
      refine ⟨some [a, b], rfl, fun p hp => ?_⟩
      cases hp
      exact (pair_le_iff (by decide)).mp hpair
  · rintro ⟨second, rfl, hsecond⟩
    cases second with
    | none => exact .inl rfl
    | some p =>
        have hp := hsecond p rfl
        have hlength : p.length = 2 := hp.elim length_of_upTo And.left
        obtain ⟨a, b, rfl⟩ := List.length_eq_two.mp hlength
        exact .inr ⟨rfl, rfl, (pair_le_iff (by decide)).mpr hp⟩

theorem length_localText {h mi : Bytes} (hh : h.length = 2) (hmi : mi.length = 2) :
    (localText t h mi second).length = 16 + (second.elim 0 fun p => p.length + 1) := by
  cases second with
  | none => simp [localText, dateText, length_fourDigits, twoDigits, hh, hmi]
  | some p => simp [localText, dateText, length_fourDigits, twoDigits, hh, hmi]; omega

theorem length_of_wibShape {h mi : Bytes} (hs : WibShape s t h mi second) :
    h.length = 2 ∧ mi.length = 2 ∧ 16 ≤ s.length := by
  have hh : h.length = 2 := hs.hour.elim length_of_upTo And.left
  have hmi : mi.length = 2 := hs.minute.elim length_of_upTo And.left
  refine ⟨hh, hmi, ?_⟩
  rw [hs.text, length_localText hh hmi]
  omega

/-- `wib_to_utc_iso` accepts what has the shape of a local time. -/
theorem value_wibToUtcIso : (wibToUtcIso s).value = some u ↔
    ∃ t h mi sec, WibShape s t h mi sec ∧
      u = utcMinute t.year t.month t.day (pairOf h) (pairOf mi) := by
  by_cases hlength : 16 ≤ s.length
  · obtain ⟨c0, c1, c2, c3, c4, c5, c6, c7, c8, c9, c10, c11, c12, c13, c14, c15, rest, rfl⟩ :=
      exists_cells hlength
    have hsec := @seconds_iff [c0, c1, c2, c3, c4, c5, c6, c7, c8, c9, c10, c11, c12, c13, c14, c15] rest
      rfl
    simp only [wibToUtcIso, value_bind, value_pure, value_ite, Option.ite_none_left_eq_some, not_lt,
      ne_eq, not_not, hsec, Option.some.injEq]
    simp only [value_dig, value_two, value_read, List.cons_append, List.nil_append,
      List.getElem?_cons_succ, List.getElem?_cons_zero, Option.getD_some]
    constructor
    · rintro ⟨-, h0, h1, h2, h3, rfl, rfl, rfl, rfl, hrange, hday, ⟨sec, hrest, hsec⟩, rfl⟩
      rw [not_or, not_or, not_or, not_or, not_or] at hrange
      rw [not_or] at hday
      have hmonth : 1 ≤ pair c5 c6 ∧ pair c5 c6 ≤ 12 := by omega
      rw [maxDay_eq hmonth] at hday
      have hyear := (@fourDigits_eq_iff _ c0 c1 c2 c3 (by omega)).mpr ⟨⟨h0, h1, h2, h3⟩, rfl⟩
      have hmonthText := ((pair_eq_iff (by omega)).mp (rfl : pair c5 c6 = pair c5 c6)).2
      have hdayText := ((pair_eq_iff (by omega)).mp (rfl : pair c8 c9 = pair c8 c9)).2
      refine ⟨⟨_, pair c5 c6, pair c8 c9, 0, 0, 0⟩, [c11, c12], [c14, c15], sec,
        ⟨⟨by dsimp only; omega, hmonth, by dsimp only; omega⟩, ?_, ?_, hsec, ?_⟩, rfl⟩
      · exact (pair_le_iff (by decide)).mp (by omega)
      · exact (pair_le_iff (by decide)).mp (by omega)
      · exact localText_eq_iff.mpr ⟨hyear, rfl, hmonthText, rfl, hdayText, rfl, ⟨rfl, rfl⟩, rfl,
          ⟨rfl, rfl⟩, hrest⟩
    · rintro ⟨t, h, mi, sec, hs, rfl⟩
      obtain ⟨hh, hmi, -⟩ := length_of_wibShape hs
      obtain ⟨a, b, rfl⟩ := List.length_eq_two.mp hh
      obtain ⟨a', b', rfl⟩ := List.length_eq_two.mp hmi
      obtain ⟨hy, rfl, hmo, rfl, hd, rfl, ⟨rfl, rfl⟩, rfl, ⟨rfl, rfl⟩, hrest⟩ :=
        localText_eq_iff.mp hs.text
      have hyear := hs.day.year
      have hmonth := hs.day.month
      have hday := hs.day.day
      have hmonthDays : daysInMonth t.year t.month ≤ 31 := daysInMonth_le _ _
      obtain ⟨⟨h0, h1, h2, h3⟩, hyearEq⟩ := (fourDigits_eq_iff (by omega)).mp hy
      have hmonthEq := (pair_eq_iff (by omega)).mpr ⟨by omega, hmo⟩
      have hdayEq := (pair_eq_iff (by omega)).mpr ⟨by omega, hd⟩
      have hhour := (pair_le_iff (by decide)).mpr hs.hour
      have hminute := (pair_le_iff (by decide)).mpr hs.minute
      rw [hyearEq, hmonthEq, hdayEq, maxDay_eq hmonth]
      exact ⟨hlength, h0, h1, h2, h3, rfl, rfl, rfl, rfl, by omega, by omega,
        ⟨sec, hrest, hs.second⟩, rfl⟩
  · refine iff_of_false ?_ ?_
    · simp [wibToUtcIso, not_le.mp hlength]
    · rintro ⟨t, h, mi, sec, hs, -⟩
      exact hlength (length_of_wibShape hs).2.2

/-! ### The instant -/

theorem fourDigits_eq_intText {y : Int} (hy : 1000 ≤ y ∧ y ≤ 9999) : fourDigits y = intText y := by
  obtain ⟨n, rfl⟩ := Int.eq_ofNat_of_zero_le (by omega : 0 ≤ y)
  have hdigits : Nat.digits 10 n = [n % 10, n / 10 % 10, n / 100 % 10, n / 1000] := by
    have hlast : Nat.digits 10 (n / 10 / 10 / 10) = [n / 10 / 10 / 10] :=
      Nat.digits_of_lt _ _ (by omega) (by omega)
    rw [Nat.digits_def' (by decide) (by omega), Nat.digits_def' (by decide) (by omega),
      Nat.digits_def' (by decide) (by omega), hlast, Nat.div_div_eq_div_mul, Nat.div_div_eq_div_mul]
  have hhigh : ((n : Int) / 100).toNat = n / 100 := by omega
  have hlow : ((n : Int) % 100).toNat = n % 100 := by omega
  have hcells : n / 100 / 10 = n / 1000 ∧ n / 100 % 10 = n / 100 % 10 ∧ n % 100 / 10 = n / 10 % 10 ∧
      n % 100 % 10 = n % 10 := by omega
  rw [intText, if_neg (by omega), natText, if_neg (by omega), Int.natAbs_natCast, hdigits, fourDigits,
    twoDigits, twoDigits, hhigh, hlow, hcells.1, hcells.2.2.1, hcells.2.2.2]
  rfl

/-- The code's calendar is the calendar. -/
theorem utcMinute_eq (ht : WibDay t) (hhour : 0 ≤ t.hour ∧ t.hour ≤ 23)
    (hminute : 0 ≤ t.minute ∧ t.minute ≤ 59) :
    utcMinute t.year t.month t.day t.hour t.minute = utcText t := by
  obtain ⟨total, htotal⟩ : ∃ total, total =
      daysFromCivil t.year t.month t.day * 1440 + t.hour * 60 + t.minute - 7 * 60 := ⟨_, rfl⟩
  have hseconds : seconds { t with second := 0 } - 7 * 3600 = total * 60 := by
    rw [daysFromCivil_eq ht.month]
    omega
  have htotal0 : 0 ≤ total ∧ total < 80000000 := by
    have hday := ht.day
    have hmonthDays := daysInMonth_le t.year t.month
    have hdays := daysFromCivil_bounds ht.year ht.month (d := t.day) (by omega)
    omega
  have hsplit : (if total.tmod 1440 < 0 then (total.tdiv 1440 - 1, total.tmod 1440 + 1440)
      else (total.tdiv 1440, total.tmod 1440)) = (total / 1440, total % 1440) := by
    rw [Int.tdiv_eq_ediv_of_nonneg htotal0.1, Int.tmod_eq_emod_of_nonneg htotal0.1, if_neg (by omega)]
  have hday : total / 1440 = total * 60 / 86400 := by omega
  have hhours : (total % 1440).tdiv 60 = total * 60 % 86400 / 3600 := by
    rw [Int.tdiv_eq_ediv_of_nonneg (by omega)]
    omega
  have hminutes : (total % 1440).tmod 60 = total * 60 % 3600 / 60 := by
    rw [Int.tmod_eq_emod_of_nonneg (by omega)]
    omega
  have hyear := @year_bounds (total * 60) (by omega)
  obtain ⟨c, hc⟩ : ∃ c, c = civil (total * 60) := ⟨_, rfl⟩
  have hdate : civilFromDays (total / 1440) = (c.year, c.month, c.day) := by
    rw [hday, civilFromDays_eq, hc]
  have hhour : (total % 1440).tdiv 60 = c.hour := by
    rw [hhours, hc]
    rfl
  have hminute : (total % 1440).tmod 60 = c.minute := by
    rw [hminutes, hc]
    rfl
  have hsecond : c.second = 0 := by
    have hzero : total * 60 % 60 = 0 := by omega
    rw [hc]
    exact hzero
  rw [← hc] at hyear
  rw [utcText, hseconds, ← hc, strftime, hsecond, ← fourDigits_eq_intText (by omega)]
  unfold utcMinute
  simp only [← htotal, hsplit, hdate, hhour, hminute]
  rfl

/-! ### Accepted and refused -/

theorem shape_of_time (h : WibTime s t) : ∃ second,
    WibShape s t (twoDigits t.hour) (twoDigits t.minute) second ∧ ∀ p ∈ second, UpTo 59 p := by
  have hhour : UpTo 23 (twoDigits t.hour) := ⟨t.hour, h.hour, rfl⟩
  have hminute : UpTo 59 (twoDigits t.minute) := ⟨t.minute, h.minute, rfl⟩
  rcases h.text with htext | htext
  · exact ⟨none, ⟨h.day, .inl hhour, .inl hminute, nofun, htext⟩, nofun⟩
  · have hsecond : ∀ p ∈ some (twoDigits t.second), UpTo 59 p := by
      intro p hp
      cases hp
      exact ⟨t.second, h.second, rfl⟩
    exact ⟨_, ⟨h.day, .inl hhour, .inl hminute, fun p hp => .inl (hsecond p hp), htext⟩, hsecond⟩

/-- The shape of a local time with numbers in place is one. -/
theorem time_of_shape {h mi : Bytes} {day : Civil} (hs : WibShape s day h mi second) (hh : UpTo 23 h)
    (hmi : UpTo 59 mi) (hsec : ∀ p ∈ second, UpTo 59 p) :
    ∃ t, WibTime s t ∧ t.year = day.year ∧ t.month = day.month ∧ t.day = day.day ∧
      h = twoDigits t.hour ∧ mi = twoDigits t.minute := by
  obtain ⟨hour, hhour, rfl⟩ := hh
  obtain ⟨minute, hminute, rfl⟩ := hmi
  have hday : ∀ sec, WibDay { day with hour, minute, second := sec } := fun sec =>
    ⟨hs.day.year, hs.day.month, hs.day.day⟩
  cases second with
  | none =>
      exact ⟨_, ⟨hday 0, hhour, hminute, by dsimp only; omega, .inl hs.text⟩, rfl, rfl, rfl, rfl, rfl⟩
  | some p =>
      obtain ⟨sec, hsecond, rfl⟩ := hsec p rfl
      exact ⟨_, ⟨hday sec, hhour, hminute, hsecond, .inr hs.text⟩, rfl, rfl, rfl, rfl, rfl⟩

/-- A shape is of one text only. -/
theorem shape_unique {t' : Civil} {h mi h' mi' : Bytes} {second' : Option Bytes}
    (hs : WibShape s t h mi second) (hs' : WibShape s t' h' mi' second') :
    h = h' ∧ mi = mi' ∧ second = second' := by
  obtain ⟨hh, hmi, hlength⟩ := length_of_wibShape hs
  obtain ⟨hh', hmi', -⟩ := length_of_wibShape hs'
  obtain ⟨a, b, rfl⟩ := List.length_eq_two.mp hh
  obtain ⟨a', b', rfl⟩ := List.length_eq_two.mp hmi
  obtain ⟨d, e, rfl⟩ := List.length_eq_two.mp hh'
  obtain ⟨d', e', rfl⟩ := List.length_eq_two.mp hmi'
  obtain ⟨c0, c1, c2, c3, c4, c5, c6, c7, c8, c9, c10, c11, c12, c13, c14, c15, rest, rfl⟩ :=
    exists_cells hlength
  obtain ⟨-, -, -, -, -, -, ⟨rfl, rfl⟩, -, ⟨rfl, rfl⟩, hrest⟩ := localText_eq_iff.mp hs.text
  obtain ⟨-, -, -, -, -, -, ⟨rfl, rfl⟩, -, ⟨rfl, rfl⟩, hrest'⟩ := localText_eq_iff.mp hs'.text
  refine ⟨rfl, rfl, ?_⟩
  rw [hrest] at hrest'
  cases second with
  | none =>
      cases second' with
      | none => rfl
      | some p => cases hrest'
  | some p =>
      cases second' with
      | none => cases hrest'
      | some p' => rw [(List.cons.inj hrest').2]

theorem not_upTo_of_noDigits {p : Bytes} {limit : Int} (hlimit : limit ≤ 99) (h : NoDigits p) :
    ¬ UpTo limit p := by
  obtain ⟨a, b, rfl⟩ := List.length_eq_two.mp h.1
  rw [upTo_iff hlimit, noDigits_iff.mp h]
  omega

/-- A local time is recognized and put in UTC exactly where every number is one. -/
theorem inUtc_iff (s : Bytes) :
    (∀ u, (wibToUtcIso s).value = some u ↔ InUtc s u) ↔ ¬ NoNumber s := by
  constructor
  · rintro hall ⟨t, h, mi, sec, hs, hno⟩
    obtain ⟨t', ht', -⟩ := (hall _).mp (value_wibToUtcIso.mpr ⟨t, h, mi, sec, hs, rfl⟩)
    obtain ⟨sec', hs', hsec'⟩ := shape_of_time ht'
    obtain ⟨rfl, rfl, rfl⟩ := shape_unique hs hs'
    rcases hno with hno | hno | ⟨p, hp, hno⟩
    · exact not_upTo_of_noDigits (by decide) hno ⟨_, ht'.hour, rfl⟩
    · exact not_upTo_of_noDigits (by decide) hno ⟨_, ht'.minute, rfl⟩
    · exact not_upTo_of_noDigits (by decide) hno (hsec' p hp)
  · intro hall u
    have hinstant : ∀ t, WibTime s t → utcMinute t.year t.month t.day (pairOf (twoDigits t.hour))
        (pairOf (twoDigits t.minute)) = utcText t := by
      intro t ht
      have hhour := ht.hour
      have hminute := ht.minute
      rw [pairOf_twoDigits (by omega), pairOf_twoDigits (by omega)]
      exact utcMinute_eq ht.day hhour hminute
    rw [value_wibToUtcIso]
    constructor
    · rintro ⟨t, h, mi, sec, hs, rfl⟩
      have hno : ¬ NoDigits h ∧ ¬ NoDigits mi ∧ ∀ p ∈ sec, ¬ NoDigits p :=
        ⟨fun hno => hall ⟨t, h, mi, sec, hs, .inl hno⟩,
          fun hno => hall ⟨t, h, mi, sec, hs, .inr (.inl hno)⟩,
          fun p hp hno => hall ⟨t, h, mi, sec, hs, .inr (.inr ⟨p, hp, hno⟩)⟩⟩
      obtain ⟨t', ht', hy, hm, hd, rfl, rfl⟩ := time_of_shape hs (hs.hour.resolve_right hno.1)
        (hs.minute.resolve_right hno.2.1) fun p hp => (hs.second p hp).resolve_right (hno.2.2 p hp)
      refine ⟨t', ht', ?_⟩
      rw [← hinstant t' ht', hy, hm, hd]
    · rintro ⟨t, ht, rfl⟩
      obtain ⟨sec, hs, -⟩ := shape_of_time ht
      exact ⟨t, _, _, sec, hs, (hinstant t ht).symm⟩

/-- Two bytes that are no number count as an hour. -/
theorem not_inUtc : ¬ ∀ s u, (wibToUtcIso s).value = some u ↔ InUtc s u := by
  intro hall
  have hvalue : (wibToUtcIso (str "2026-05-01 xx:00")).value = some (str "2026-04-30T16:00:00Z") := by
    decide
  have hshape : WibShape (str "2026-05-01 xx:00") ⟨2026, 5, 1, 0, 0, 0⟩ (str "xx") (str "00") none :=
    { day := ⟨by decide, by decide, by decide⟩
      hour := .inr ⟨rfl, by decide⟩
      minute := .inl ⟨0, by decide, rfl⟩
      second := nofun
      text := by decide }
  obtain ⟨t, ht, -⟩ := (hall _ _).mp hvalue
  obtain ⟨second, hs, -⟩ := shape_of_time ht
  obtain ⟨hhour, -, -⟩ := shape_unique hshape hs
  exact not_upTo_of_noDigits (by decide) ⟨rfl, by decide⟩ ⟨t.hour, ht.hour, hhour⟩

/-! ### The indices that are used -/

theorem within_readSeconds :
    (readSeconds s).Within s.length ↔ ¬ (s.length = 17 ∧ s[16]?.getD 0 = chr ':') := by
  have hread : (Indexed.read s 16).value = s[16]?.getD 0 := rfl
  simp only [readSeconds, within_ite, within_bind, within_pure, within_two, within_read, and_true,
    implies_true, hread]
  by_cases hcolon : s[16]?.getD 0 = chr ':'
  · simp only [hcolon, and_true, true_imp_iff]
    omega
  · simp only [hcolon, and_false, not_false_eq_true, false_imp_iff, and_true, iff_true]
    omega

/-- What `wib_to_utc_iso` asks of the first sixteen bytes. -/
def Head (s : Bytes) : Prop :=
  0 ≤ (dig s 0).value ∧ 0 ≤ (dig s 1).value ∧ 0 ≤ (dig s 2).value ∧ 0 ≤ (dig s 3).value ∧
    (read s 4).value = chr '-' ∧ (read s 7).value = chr '-' ∧ (read s 10).value = chr ' ' ∧
    (read s 13).value = chr ':' ∧
    let y := (dig s 0).value * 1000 + (dig s 1).value * 100 + (dig s 2).value * 10 + (dig s 3).value
    ¬(y < 2000 ∨ 2100 < y ∨ (two s 5).value < 1 ∨ 12 < (two s 5).value ∨ 23 < (two s 11).value ∨
      59 < (two s 14).value) ∧
    ¬((two s 8).value < 1 ∨ maxDay y (two s 5).value < (two s 8).value)

theorem head_append {cells rest : Bytes} (h : cells.length = 16) : Head (cells ++ rest) ↔ Head cells := by
  have hget : ∀ i < 16, (cells ++ rest)[i]? = cells[i]? := fun i hi =>
    List.getElem?_append_left (h ▸ hi)
  unfold Head
  simp (disch := decide) only [value_dig, value_two, value_read, hget]

theorem head_iff (h : s.length = 16) : Head s ↔ ∃ u, (wibToUtcIso s).value = some u := by
  have hsec : (readSeconds s).value = some s.length := (value_readSeconds h.ge).mpr (.inl h)
  simp only [wibToUtcIso, value_bind, value_pure, value_ite, Option.ite_none_left_eq_some, not_lt,
    ne_eq, not_not, hsec, Option.some.injEq, exists_and_left, exists_eq', and_true, Head, h.ge, true_and]

theorem length_of_minutes {h mi : Bytes} (hs : WibShape s t h mi none) : s.length = 16 := by
  obtain ⟨hh, hmi, -⟩ := length_of_wibShape hs
  rw [hs.text, length_localText hh hmi]
  rfl

theorem sec_eq_none {h mi : Bytes} (hlength : s.length = 16) (hs : WibShape s t h mi second) :
    second = none := by
  obtain ⟨hh, hmi, -⟩ := length_of_wibShape hs
  rw [hs.text, length_localText hh hmi] at hlength
  cases second with
  | none => rfl
  | some p => simp at hlength

/-- Every index is one of the text but those of seconds behind a minute that is accepted. -/
theorem within_wibToUtcIso (h : 16 ≤ s.length) :
    (wibToUtcIso s).Within s.length ↔ (Head s → (readSeconds s).Within s.length) := by
  have hle : ∀ i, i ≤ 16 → (i ≤ s.length ↔ True) := fun i hi => iff_true_intro (hi.trans h)
  simp only [wibToUtcIso, within_ite, within_bind, within_pure, within_two, within_read, within_dig,
    and_true, implies_true, true_and, ne_eq, not_not, not_lt]
  simp (disch := decide) only [hle, true_imp_iff, true_and]
  simp only [Head, and_imp]

theorem within_readFraction {fuel pos nd : Nat} {frac : Int} :
    (readFraction s fuel pos nd frac).Within s.length := by
  induction fuel generalizing pos nd frac with
  | zero => exact within_pure _
  | succ fuel ih =>
      simp only [readFraction, within_ite, within_bind, within_pure, within_dig, implies_true, true_and,
        ih, and_true]
      omega

theorem within_readMillis {pos : Nat} : (readMillis s pos).Within s.length := by
  simp only [readMillis, within_ite, within_bind, within_pure, within_read, within_readFraction,
    implies_true, true_and, and_true]
  omega

theorem within_readOffset {pos : Nat} : (readOffset s pos).Within s.length := by
  simp only [readOffset, within_ite, within_bind, within_pure, within_read, within_two, within_dig,
    implies_true, and_true]
  omega

theorem within_readZone {pos : Nat} : (readZone s pos).Within s.length := by
  simp only [readZone, within_ite, within_bind, within_pure, within_read, implies_true, true_and,
    and_true, within_readOffset]
  cases (readOffset s pos).value with
  | none => simp only [within_pure, implies_true, and_true]; omega
  | some offset => simp only [within_ite, within_pure, implies_true, and_true]; omega

theorem within_readTail : (readTail s t).Within s.length := by
  simp only [readTail, within_bind, within_readMillis, true_and]
  cases (readMillis s 19).value with
  | none => exact within_pure _
  | some millis =>
      simp only [within_bind, within_readZone, true_and]
      cases (readZone s millis.1).value with
      | none => exact within_pure _
      | some zone => simp only [within_ite, within_pure, implies_true, and_self]

/-- Every index that the other parser uses is one of the text. -/
theorem within_parsePgOrIsoUtc (s : Bytes) : (parsePgOrIsoUtc s).Within s.length := by
  by_cases hlength : s.length < 19
  · simp only [parsePgOrIsoUtc, if_pos hlength, within_pure]
  · have hle : ∀ i, i ≤ 19 → (i ≤ s.length ↔ True) := fun i hi => iff_true_intro (by omega)
    simp only [parsePgOrIsoUtc, if_neg hlength, within_ite, within_bind, within_pure, within_two,
      within_read, within_dig, implies_true, true_and, within_readTail]
    simp (disch := decide) only [hle, true_and, implies_true]

/-- The indices that are used are those of the text and of its terminator exactly where no colon ends
a local minute. -/
theorem within_iff (s : Bytes) :
    ((wibToUtcIso s).Within s.length ∧ (parsePgOrIsoUtc s).Within s.length) ↔ ¬ EndsInColon s := by
  rw [and_iff_left (within_parsePgOrIsoUtc s)]
  by_cases hlength : 16 ≤ s.length
  · have hcells : (s.take 16).length = 16 := by
      rw [List.length_take, min_eq_left hlength]
    have hhead : Head s ↔ ∃ u, (wibToUtcIso (s.take 16)).value = some u := by
      have happend : Head (s.take 16 ++ s.drop 16) ↔ Head (s.take 16) := head_append hcells
      rw [← head_iff hcells, ← happend, List.take_append_drop]
    rw [within_wibToUtcIso hlength, hhead, within_readSeconds, ← not_and, not_iff_not]
    constructor
    · rintro ⟨⟨u, hu⟩, hlong, hcolon⟩
      obtain ⟨t, h, mi, sec, hs, -⟩ := value_wibToUtcIso.mp hu
      have hdrop : s.dropLast = s.take 16 := by rw [List.dropLast_eq_take, hlong]
      have hlast : s.getLast? = some (chr ':') := by
        rw [List.getLast?_eq_getElem?, hlong]
        rw [List.getElem?_eq_getElem (by omega)] at hcolon ⊢
        exact congrArg some hcolon
      obtain rfl : sec = none := sec_eq_none hcells hs
      exact ⟨t, h, mi, hdrop ▸ hs, hlast⟩
    · rintro ⟨t, h, mi, hs, hlast⟩
      have hlong : s.length = 17 := by
        have hshort := length_of_minutes hs
        rw [List.length_dropLast] at hshort
        omega
      have hdrop : s.dropLast = s.take 16 := by rw [List.dropLast_eq_take, hlong]
      refine ⟨⟨_, value_wibToUtcIso.mpr ⟨t, h, mi, none, hdrop ▸ hs, rfl⟩⟩, hlong, ?_⟩
      rw [List.getLast?_eq_getElem?, hlong] at hlast
      rw [hlast]
      rfl
  · have hvalue : (wibToUtcIso s).Within s.length := by
      simp only [wibToUtcIso, if_pos (not_le.mp hlength), within_pure]
    refine iff_of_true hvalue ?_
    rintro ⟨t, h, mi, hs, -⟩
    have hshort := length_of_minutes hs
    rw [List.length_dropLast] at hshort
    omega

/-- A colon at the end makes it read a second digit behind the terminator. -/
theorem not_within :
    ¬ ∀ s, (wibToUtcIso s).Within s.length ∧ (parsePgOrIsoUtc s).Within s.length := by
  intro hall
  have hread : 18 ∈ (wibToUtcIso (str "2026-05-01 10:00:")).indices := by decide
  have hle : 18 ≤ 17 := (hall (str "2026-05-01 10:00:")).1 18 hread
  exact absurd hle (by decide)

end

end ExamVan.Helpers
