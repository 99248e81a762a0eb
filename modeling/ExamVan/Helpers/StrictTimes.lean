import ExamVan.Helpers.IsoUtc
import ExamVan.Lib.Indexed

/-!
# Strict times

`wib_to_utc_iso` reads a schedule in local time, and `parse_pg_or_iso_utc` an expiry from the
database. Both look at fixed places of the text. A pair that is no two digits counts as -1, and
`wib_to_utc_iso` compares the hour, the minute and the second with their greatest values only.
-/

namespace ExamVan.Helpers

open ByteString Calendar Indexed

/-! ### Reading digits -/

/-- `dig` -/
def dig (s : Bytes) (i : Nat) : Indexed Int := do
  let c ← read s i
  return if isDigit c then (c.toNat : Int) - 48 else -1

/-- `two`; both bytes are read in any case. -/
def two (s : Bytes) (i : Nat) : Indexed Int := do
  let a ← dig s i
  let b ← dig s (i + 1)
  return if a < 0 ∨ b < 0 then -1 else a * 10 + b

/-- The days of the months, and the leap day. -/
def maxDay (y mo : Int) : Int :=
  let mdays : List Int := [31, 28, 31, 30, 31, 30, 31, 31, 30, 31, 30, 31]
  if mo = 2 ∧ ((y.tmod 4 = 0 ∧ y.tmod 100 ≠ 0) ∨ y.tmod 400 = 0) then 29
  else mdays[(mo - 1).toNat]?.getD 0

/-! ### Local time -/

/-- `days_from_civil`; the unsigned numbers of the code do not wrap for a month of the calendar. -/
def daysFromCivil (y m d : Int) : Int :=
  let y := if m ≤ 2 then y - 1 else y
  let era := (if 0 ≤ y then y else y - 399).tdiv 400
  let yoe := y - era * 400
  let doy := (153 * (m + if 2 < m then -3 else 9) + 2) / 5 + d - 1
  let doe := yoe * 365 + yoe / 4 - yoe / 100 + doy
  era * 146097 + doe - 719468

/-- `civil_from_days` -/
def civilFromDays (z : Int) : Int × Int × Int :=
  let z := z + 719468
  let era := (if 0 ≤ z then z else z - 146096).tdiv 146097
  let doe := z - era * 146097
  let yoe := (doe - doe / 1460 + doe / 36524 - doe / 146096) / 365
  let doy := doe - (365 * yoe + yoe / 4 - yoe / 100)
  let mp := (5 * doy + 2) / 153
  let d := doy - (153 * mp + 2) / 5 + 1
  let m := if mp < 10 then mp + 3 else mp - 9
  (yoe + era * 400 + if m ≤ 2 then 1 else 0, m, d)

/-- `%04d` of a number from 0 to 9999. -/
def fourDigits (n : Int) : Bytes := twoDigits (n / 100) ++ twoDigits (n % 100)

/-- The date and the time of a local minute in UTC, seven hours before it. -/
def utcMinute (y mo d h mi : Int) : Bytes :=
  let total := daysFromCivil y mo d * 1440 + h * 60 + mi - 7 * 60
  let days := total.tdiv 1440
  let rem := total.tmod 1440
  let (days, rem) := if rem < 0 then (days - 1, rem + 1440) else (days, rem)
  let (y, m, d) := civilFromDays days
  fourDigits y ++ chr '-' :: (twoDigits m ++ chr '-' :: (twoDigits d ++ chr 'T' ::
    (twoDigits (rem.tdiv 60) ++ chr ':' :: (twoDigits (rem.tmod 60) ++ str ":00Z"))))

/-- The seconds of a local time: `none` where they are refused, else the place where they end. -/
def readSeconds (s : Bytes) : Indexed (Option Nat) := do
  if 16 < s.length then
    let c ← read s 16
    if c = chr ':' then
      let sec ← two s 17
      return if 59 < sec then none else some 19
    else return some 16
  else return some 16

/-- `wib_to_utc_iso` -/
def wibToUtcIso (s : Bytes) : Indexed (Option Bytes) := do
  if s.length < 16 then return none
  let y0 ← dig s 0
  if y0 < 0 then return none
  let y1 ← dig s 1
  if y1 < 0 then return none
  let y2 ← dig s 2
  if y2 < 0 then return none
  let y3 ← dig s 3
  if y3 < 0 then return none
  if (← read s 4) ≠ chr '-' then return none
  if (← read s 7) ≠ chr '-' then return none
  if (← read s 10) ≠ chr ' ' then return none
  if (← read s 13) ≠ chr ':' then return none
  let y := y0 * 1000 + y1 * 100 + y2 * 10 + y3
  let mo ← two s 5
  let d ← two s 8
  let h ← two s 11
  let mi ← two s 14
  if y < 2000 ∨ 2100 < y ∨ mo < 1 ∨ 12 < mo ∨ 23 < h ∨ 59 < mi then return none
  if d < 1 ∨ maxDay y mo < d then return none
  if (← readSeconds s) ≠ some s.length then return none
  return some (utcMinute y mo d h mi)

/-! ### Times of the database -/

/-- The digits of a fraction from `pos` on: their number, and the number that the first three spell. -/
def readFraction (s : Bytes) : Nat → Nat → Nat → Int → Indexed (Nat × Nat × Int)
  | 0, pos, nd, frac => return (pos, nd, frac)
  | fuel + 1, pos, nd, frac => do
      if s.length ≤ pos then return (pos, nd, frac)
      let v ← dig s pos
      if v < 0 then return (pos, nd, frac)
      readFraction s fuel (pos + 1) (nd + 1) (if nd < 3 then frac * 10 + v else frac)

/-- A fraction of a second that begins at `pos`: where it ends, and its milliseconds. -/
def readMillis (s : Bytes) (pos : Nat) : Indexed (Option (Nat × Int)) := do
  if s.length ≤ pos then return some (pos, 0)
  if (← read s pos) ≠ chr '.' then return some (pos, 0)
  let (pos, nd, frac) ← readFraction s s.length (pos + 1) 0 0
  if nd = 0 then return none
  return some (pos, frac * 10 ^ (3 - nd))

/-- The digits of an offset behind its sign: its hours and its minutes. -/
def readOffset (s : Bytes) (pos : Nat) : Indexed (Option (Int × Int)) := do
  let rem := s.length - (pos + 1)
  if rem = 2 then
    return some (← two s (pos + 1), 0)
  if rem = 4 then
    let a ← dig s (pos + 1)
    let b ← dig s (pos + 2)
    let c ← dig s (pos + 3)
    let d ← dig s (pos + 4)
    return some (if 0 ≤ a ∧ 0 ≤ b ∧ 0 ≤ c ∧ 0 ≤ d then (a * 10 + b, c * 10 + d) else (-1, 0))
  if rem = 5 then
    if (← read s (pos + 3)) = chr ':' then
      let oh ← two s (pos + 1)
      let om ← two s (pos + 4)
      return some (oh, om)
  return none

/-- A zone that begins at `pos`: where it ends, and its minutes. -/
def readZone (s : Bytes) (pos : Nat) : Indexed (Option (Nat × Int)) := do
  if s.length ≤ pos then return some (pos, 0)
  let c ← read s pos
  if c = chr 'Z' then return some (pos + 1, 0)
  if c = chr '+' ∨ c = chr '-' then
    match ← readOffset s pos with
    | none => return none
    | some (oh, om) =>
        if oh < 0 ∨ 23 < oh ∨ om < 0 ∨ 59 < om then return none
        return some (s.length, (if c = chr '-' then -1 else 1) * (oh * 60 + om))
  return none

/-- What is done behind the seconds. -/
def readTail (s : Bytes) (t : Civil) : Indexed (Option Int) := do
  match ← readMillis s 19 with
  | none => return none
  | some (pos, millis) =>
      match ← readZone s pos with
      | none => return none
      | some (pos, offset) =>
          if pos ≠ s.length then return none
          if maxDay t.year t.month < t.day then return none
          let n := wrapTicks (seconds t * 1000000000)
          let n := if offset ≠ 0 then wrapTicks (n - offset * 60 * 1000000000) else n
          return some (if millis ≠ 0 then wrapTicks (n + millis * 1000000) else n)

/-- `parse_pg_or_iso_utc`: the nanoseconds of `system_clock`. -/
def parsePgOrIsoUtc (s : Bytes) : Indexed (Option Int) := do
  if s.length < 19 then return none
  let y0 ← dig s 0
  let y1 ← dig s 1
  let y2 ← dig s 2
  let y3 ← dig s 3
  let y := y0 * 1000 + y1 * 100 + y2 * 10 + y3
  if y0 < 0 ∨ y1 < 0 ∨ y2 < 0 ∨ y3 < 0 then return none
  if (← read s 4) ≠ chr '-' then return none
  if (← read s 7) ≠ chr '-' then return none
  let mo ← two s 5
  let d ← two s 8
  if mo < 1 ∨ 12 < mo ∨ d < 1 ∨ 31 < d then return none
  let sep ← read s 10
  if sep ≠ chr 'T' ∧ sep ≠ chr ' ' then return none
  let h ← two s 11
  let mi ← two s 14
  let sec ← two s 17
  if h < 0 ∨ 23 < h ∨ mi < 0 ∨ 59 < mi ∨ sec < 0 ∨ 60 < sec then return none
  if (← read s 13) ≠ chr ':' then return none
  if (← read s 16) ≠ chr ':' then return none
  readTail s ⟨y, mo, d, h, mi, sec⟩

/-! ### What digits are read -/

section

variable {a b c : UInt8} {n limit : Int}

/-- What a byte counts as. -/
def digit (c : UInt8) : Int := if isDigit c then (c.toNat : Int) - 48 else -1

/-- What a pair of bytes counts as. -/
def pair (a b : UInt8) : Int := if digit a < 0 ∨ digit b < 0 then -1 else digit a * 10 + digit b

theorem value_dig (s : Bytes) (i : Nat) : (dig s i).value = digit (s[i]?.getD 0) := rfl

theorem value_two (s : Bytes) (i : Nat) :
    (two s i).value = pair (s[i]?.getD 0) (s[i + 1]?.getD 0) := rfl

theorem within_two {s : Bytes} {i m : Nat} : (two s i).Within m ↔ i + 1 ≤ m := by
  simp only [two, dig, within_bind, within_read, within_pure, and_true]
  omega

theorem within_dig {s : Bytes} {i m : Nat} : (dig s i).Within m ↔ i ≤ m := by
  simp only [dig, within_bind, within_read, within_pure, and_true]

theorem digit_bounds (c : UInt8) : -1 ≤ digit c ∧ digit c ≤ 9 := by
  unfold digit
  split_ifs with h
  · simp only [isDigit, Bool.and_eq_true, decide_eq_true_eq, UInt8.le_iff_toNat_le,
      UInt8.reduceToNat] at h
    omega
  · decide

theorem digit_nonneg_iff : 0 ≤ digit c ↔ isDigit c = true := by
  unfold digit
  split_ifs with h
  · have hdigit := h
    simp only [isDigit, Bool.and_eq_true, decide_eq_true_eq, UInt8.le_iff_toNat_le,
      UInt8.reduceToNat] at hdigit
    exact iff_of_true (by omega) h
  · exact iff_of_false (by decide) h

theorem digit_digitByte (hn : 0 ≤ n ∧ n ≤ 9) : digit (48 + UInt8.ofNat n.toNat) = n := by
  rw [digit, if_pos (isDigit_digitByte (by omega)), digitByte_toNat (by omega)]
  omega

theorem digitByte_digit (hc : isDigit c = true) : 48 + UInt8.ofNat (digit c).toNat = c := by
  rw [digit, if_pos hc]
  simp only [isDigit, Bool.and_eq_true, decide_eq_true_eq, UInt8.le_iff_toNat_le,
    UInt8.reduceToNat] at hc
  have hnat : ((c.toNat : Int) - 48).toNat = c.toNat - 48 := by omega
  apply UInt8.toNat_inj.mp
  rw [hnat, digitByte_toNat (by omega)]
  omega

theorem twoDigits_eq (hn : 0 ≤ n) : twoDigits n =
    [48 + UInt8.ofNat (n / 10).toNat, 48 + UInt8.ofNat (n % 10).toNat] := by
  have hten : n.toNat / 10 = (n / 10).toNat := by omega
  have hone : n.toNat % 10 = (n % 10).toNat := by omega
  rw [twoDigits, hten, hone]

/-- A pair counts as the number whose digits it is. -/
theorem pair_eq_iff (hn : 0 ≤ n) : pair a b = n ↔ n ≤ 99 ∧ [a, b] = twoDigits n := by
  have ha := digit_bounds a
  have hb := digit_bounds b
  constructor
  · intro h
    unfold pair at h
    split_ifs at h with hneg
    · omega
    · rw [not_or, not_lt, not_lt] at hneg
      have hdigits : n / 10 = digit a ∧ n % 10 = digit b := by omega
      rw [twoDigits_eq hn, hdigits.1, hdigits.2, digitByte_digit (digit_nonneg_iff.mp hneg.1),
        digitByte_digit (digit_nonneg_iff.mp hneg.2)]
      exact ⟨by omega, rfl⟩
  · rintro ⟨hle, h⟩
    rw [twoDigits_eq hn] at h
    obtain ⟨ha', h⟩ := List.cons.inj h
    obtain ⟨hb', -⟩ := List.cons.inj h
    rw [pair, ha', hb', digit_digitByte (by omega), digit_digitByte (by omega), if_neg (by omega)]
    omega

theorem pair_bounds (a b : UInt8) : -1 ≤ pair a b ∧ pair a b ≤ 99 := by
  have ha := digit_bounds a
  have hb := digit_bounds b
  unfold pair
  split_ifs
  · decide
  · omega

/-- Two bytes that are no two digits. -/
def NoDigits (p : Bytes) : Prop := p.length = 2 ∧ ¬ ∀ c ∈ p, isDigit c = true

/-- The digits of a number up to a limit. -/
def UpTo (limit : Int) (p : Bytes) : Prop := ∃ n, (0 ≤ n ∧ n ≤ limit) ∧ p = twoDigits n

theorem noDigits_iff : NoDigits [a, b] ↔ pair a b = -1 := by
  have ha := @digit_nonneg_iff a
  have hb := @digit_nonneg_iff b
  have hdigits : (∀ c ∈ [a, b], isDigit c = true) ↔ 0 ≤ digit a ∧ 0 ≤ digit b := by
    rw [ha, hb, List.forall_mem_cons, List.forall_mem_singleton]
  unfold NoDigits pair
  rw [hdigits]
  split_ifs with h
  · exact iff_of_true ⟨rfl, by omega⟩ rfl
  · exact iff_of_false (fun hno => hno.2 (by omega)) (by omega)

theorem upTo_iff (hlimit : limit ≤ 99) : UpTo limit [a, b] ↔ 0 ≤ pair a b ∧ pair a b ≤ limit := by
  constructor
  · rintro ⟨n, hn, h⟩
    have hpair := (pair_eq_iff hn.1).mpr ⟨by omega, h⟩
    rwa [hpair]
  · intro h
    exact ⟨pair a b, h, ((pair_eq_iff h.1).mp rfl).2⟩

/-- A pair that is compared with its limit only. -/
theorem pair_le_iff (hlimit : 0 ≤ limit ∧ limit ≤ 99) :
    pair a b ≤ limit ↔ UpTo limit [a, b] ∨ NoDigits [a, b] := by
  have hbounds := pair_bounds a b
  rw [upTo_iff hlimit.2, noDigits_iff]
  omega

theorem length_of_upTo {p : Bytes} (h : UpTo limit p) : p.length = 2 := by
  obtain ⟨n, -, rfl⟩ := h
  rfl

/-- What a text of two bytes counts as. -/
def pairOf : Bytes → Int
  | [a, b] => pair a b
  | _ => -1

theorem pairOf_twoDigits (hn : 0 ≤ n ∧ n ≤ 99) : pairOf (twoDigits n) = n :=
  (pair_eq_iff hn.1).mpr ⟨hn.2, rfl⟩

theorem length_fourDigits (n : Int) : (fourDigits n).length = 4 := rfl

/-- Four digits count as the number that they spell. -/
theorem fourDigits_eq_iff {y0 y1 y2 y3 : UInt8} (hn : 0 ≤ n ∧ n ≤ 9999) :
    [y0, y1, y2, y3] = fourDigits n ↔ (0 ≤ digit y0 ∧ 0 ≤ digit y1 ∧ 0 ≤ digit y2 ∧ 0 ≤ digit y3) ∧
      digit y0 * 1000 + digit y1 * 100 + digit y2 * 10 + digit y3 = n := by
  have h0 := digit_bounds y0
  have h1 := digit_bounds y1
  have h2 := digit_bounds y2
  have h3 := digit_bounds y3
  have hsplit : [y0, y1, y2, y3] = fourDigits n ↔
      [y0, y1] = twoDigits (n / 100) ∧ [y2, y3] = twoDigits (n % 100) := by
    refine ⟨fun h => List.append_inj h rfl, fun h => ?_⟩
    rw [fourDigits, ← h.1, ← h.2]
    rfl
  have hhigh := @pair_eq_iff y0 y1 (n / 100) (by omega)
  have hlow := @pair_eq_iff y2 y3 (n % 100) (by omega)
  rw [and_iff_right (by omega)] at hhigh hlow
  rw [hsplit, ← hhigh, ← hlow]
  unfold pair
  split_ifs <;> omega

end

/-! ### Dates -/

section

variable {y m d z : Int}

theorem maxDay_eq (hm : 1 ≤ m ∧ m ≤ 12) : maxDay y m = daysInMonth y m := by
  have hsign : ∀ k : Int, 0 < k → (y.tmod k = 0 ↔ y % k = 0) := fun k hk => by
    rw [← Int.dvd_iff_tmod_eq_zero, ← Int.dvd_iff_emod_eq_zero]
  have hleap : ((y.tmod 4 = 0 ∧ y.tmod 100 ≠ 0) ∨ y.tmod 400 = 0) ↔ isLeap y = true := by
    rw [hsign 4 (by decide), ne_eq, hsign 100 (by decide), hsign 400 (by decide)]
    simp [isLeap]
  unfold maxDay daysInMonth
  simp only [hleap]
  obtain ⟨hlow, hhigh⟩ := hm
  interval_cases m <;> simp

/-- The code's era is rounded down. -/
theorem tdiv_era {n : Int} (hn : 0 < n) (k : Int) :
    (if 0 ≤ k then k else k - (n - 1)).tdiv n = k / n := by
  split_ifs with hk
  · exact Int.tdiv_eq_ediv_of_nonneg hk
  · have hneg : (k - (n - 1)).tdiv n = -((n - 1 - k) / n) := by
      rw [← neg_sub (n - 1) k, Int.neg_tdiv, Int.tdiv_eq_ediv_of_nonneg (by omega)]
    have hsum := Int.emod_add_mul_ediv k n
    have hlow := Int.emod_nonneg k hn.ne'
    have hhigh := Int.emod_lt_of_pos k hn
    have hquotient : (n - 1 - k) / n = -(k / n) :=
      ((Int.ediv_emod_unique hn).mpr ⟨by rw [mul_neg]; omega, by omega, by omega⟩ :
        _ ∧ (n - 1 - k) % n = n - 1 - k % n).1
    rw [hneg, hquotient, neg_neg]

theorem daysFromCivil_eq (hm : 1 ≤ m ∧ m ≤ 12) (h mi sec : Int) :
    seconds ⟨y, m, d, h, mi, sec⟩ = daysFromCivil y m d * 86400 + h * 3600 + mi * 60 + sec := by
  have hera : ∀ k : Int, (if 0 ≤ k then k else k - 399).tdiv 400 = k / 400 := tdiv_era (n := 400) (by decide)
  unfold seconds daysFromCivil daysBeforeYear daysBeforeMonth
  simp only [hera]
  split_ifs <;> omega

theorem daysFromCivil_bounds (hy : 2000 ≤ y ∧ y ≤ 2100) (hm : 1 ≤ m ∧ m ≤ 12)
    (hd : 1 ≤ d ∧ d ≤ 31) : 10000 ≤ daysFromCivil y m d ∧ daysFromCivil y m d ≤ 50000 := by
  have hera : ∀ k : Int, (if 0 ≤ k then k else k - 399).tdiv 400 = k / 400 := tdiv_era (n := 400) (by decide)
  unfold daysFromCivil
  simp only [hera]
  split_ifs <;> omega

theorem yearOf_eq (hz : 0 ≤ z ∧ z < 146097) :
    yearOf z = (z - z / 1460 + z / 36524 - z / 146096) / 365 := by
  have hcentury : z / 36524 = 0 ∨ z / 36524 = 1 ∨ z / 36524 = 2 ∨ z / 36524 = 3 ∨ z / 36524 = 4 := by
    omega
  unfold yearOf
  dsimp only
  rcases hcentury with h | h | h | h | h <;> rw [h] <;> omega

theorem civilFromDays_eq (s : Int) :
    civilFromDays (s / 86400) = ((civil s).year, (civil s).month, (civil s).day) := by
  have hera : ∀ k : Int, (if 0 ≤ k then k else k - 146096).tdiv 146097 = k / 146097 :=
    tdiv_era (n := 146097) (by decide)
  have hdoe : s / 86400 + 719468 - (s / 86400 + 719468) / 146097 * 146097 =
      (s / 86400 + 719468) % 146097 := by omega
  unfold civilFromDays civil
  dsimp only
  rw [hera, hdoe, ← yearOf_eq (by omega)]
  have hmonth := dayOfMonth_bounds (dayOfYear_bounds
    (n := (s / 86400 + 719468) % 146097) (by omega))
  unfold daysBeforeYear daysBeforeMonth at *
  refine Prod.ext ?_ (Prod.ext ?_ ?_)
  · dsimp only
    split_ifs <;> omega
  · rfl
  · rfl

end

end ExamVan.Helpers
