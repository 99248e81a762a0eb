import ExamVan.Lib.Calendar
import ExamVan.Lib.Decimal
import Mathlib.Data.Nat.Log

/-!
# Times as text

`system_clock` counts nanoseconds in 64 bits. `format_iso_utc` writes whole seconds, and
`parse_iso_utc` reads them back.
-/

namespace ExamVan.Helpers

open ByteString Calendar

/-- What is left of a number of nanoseconds in 64 bits. -/
def wrapTicks (t : Int) : Int := t.bmod (2 ^ 64)

/-- `t + std::chrono::minutes(n)` on the time points of `system_clock`. -/
def addMinutes (t : Int) (minutes : Int32) : Int := wrapTicks (t + minutes.toInt * 60 * 1000000000)

/-! ### Writing -/

def twoDigits (n : Int) : Bytes :=
  [48 + UInt8.ofNat (n.toNat / 10), 48 + UInt8.ofNat (n.toNat % 10)]

/-- `strftime` with `%Y-%m-%dT%H:%M:%SZ` -/
def strftime (t : Civil) : Bytes :=
  intText t.year ++ chr '-' :: (twoDigits t.month ++ chr '-' :: (twoDigits t.day ++ chr 'T' ::
    (twoDigits t.hour ++ chr ':' :: (twoDigits t.minute ++ chr ':' :: (twoDigits t.second ++
      [chr 'Z'])))))

/-- `format_iso_utc`; `to_time_t` drops the fraction of a second. -/
def formatIsoUtc (ticks : Int) : Bytes := strftime (civil (ticks.tdiv 1000000000))

/-! ### Reading -/

/-- A number of `get_time`: at most `width` digits, and a value between two bounds. -/
def field (width low high : Nat) (s : Bytes) : Option (Nat × Bytes) :=
  let digits := (s.take width).takeWhile isDigit
  if digits = [] ∨ digitsValue digits < low ∨ high < digitsValue digits then none
  else some (digitsValue digits, s.drop digits.length)

def literal (c : UInt8) : Bytes → Option Bytes
  | [] => none
  | b :: s => if b = c then some s else none

/-- `get_time` with `%Y-%m-%dT%H:%M:%SZ`, and `timegm` -/
def readIsoUtc (s : Bytes) : Option Int := do
  let (year, s) ← field 4 0 9999 (s.dropWhile isSpace)
  let (month, s) ← field 2 1 12 (← literal (chr '-') s)
  let (day, s) ← field 2 1 31 (← literal (chr '-') s)
  let (hour, s) ← field 2 0 23 (← literal (chr 'T') s)
  let (minute, s) ← field 2 0 59 (← literal (chr ':') s)
  let (second, s) ← field 2 0 60 (← literal (chr ':') s)
  let _ ← literal (chr 'Z') s
  return seconds ⟨year, month, day, hour, minute, second⟩

/-- `parse_iso_utc`; `from_time_t` turns the seconds to nanoseconds. -/
def parseIsoUtc (s : Bytes) : Option Int :=
  (readIsoUtc s).map fun seconds => wrapTicks (seconds * 1000000000)

/-! ### Reading what has been written -/

variable {n : Int} {rest : Bytes}

theorem literal_cons (c : UInt8) (s : Bytes) : literal c (c :: s) = some s := if_pos rfl

/-- A number in its full width is read back, whatever comes after it. -/
theorem field_append {digits : Bytes} {low high : Nat} (hdigits : ∀ c ∈ digits, isDigit c = true)
    (hne : digits ≠ []) (hlow : low ≤ digitsValue digits) (hhigh : digitsValue digits ≤ high) :
    field digits.length low high (digits ++ rest) = some (digitsValue digits, rest) := by
  have htake : ((digits ++ rest).take digits.length).takeWhile isDigit = digits := by
    rw [List.take_left]
    exact List.takeWhile_eq_self_iff.mpr hdigits
  unfold field
  dsimp only
  rw [htake, List.drop_left, if_neg]
  rintro (h | h | h)
  · exact hne h
  · omega
  · omega

theorem field_twoDigits {low high : Nat} (hlow : (low : Int) ≤ n) (hhigh : n ≤ high)
    (hsmall : high < 100) :
    field 2 low high (twoDigits n ++ rest) = some (n.toNat, rest) := by
  have hten : n.toNat / 10 < 10 := by omega
  have hone : n.toNat % 10 < 10 := Nat.mod_lt _ (by decide)
  have hvalue : digitsValue (twoDigits n) = n.toNat := by
    unfold digitsValue twoDigits
    simp only [List.foldl_cons, List.foldl_nil, digitByte_toNat hten, digitByte_toNat hone]
    omega
  rw [← hvalue]
  refine @field_append rest (twoDigits n) low high (fun c hc => ?_) (by simp [twoDigits]) ?_ ?_
  · rcases List.mem_cons.mp hc with rfl | hc
    · exact isDigit_digitByte hten
    · rw [List.mem_singleton.mp hc]
      exact isDigit_digitByte hone
  · omega
  · omega

theorem length_natText {y : Nat} (hy : 1000 ≤ y ∧ y ≤ 9999) : (natText y).length = 4 := by
  have hlog : Nat.log 10 y = 3 := (Nat.log_eq_iff (by omega)).mpr ⟨hy.1, by omega⟩
  rw [natText, if_neg (by omega), List.length_map, List.length_reverse,
    Nat.length_digits _ _ (by decide) (by omega), hlog]

theorem field_year (hy : 1000 ≤ n ∧ n ≤ 9999) :
    field 4 0 9999 (intText n ++ rest) = some (n.toNat, rest) := by
  have htext : intText n = natText n.toNat := by
    rw [intText, if_neg (by omega)]
    congr 1
    omega
  have hlength := length_natText (y := n.toNat) (by omega)
  have hvalue := digitsValue_natText n.toNat
  rw [htext]
  conv_lhs => rw [← hlength]
  conv_rhs => rw [← hvalue]
  exact field_append (fun c hc => isDigit_of_mem_natText hc) (natText_ne_nil _) (Nat.zero_le _)
    (by omega)

/-- What comes first in a year is a digit. -/
theorem dropWhile_intText (hy : 1000 ≤ n ∧ n ≤ 9999) :
    (intText n ++ rest).dropWhile isSpace = intText n ++ rest := by
  have htext : intText n = natText n.natAbs := if_neg (by omega)
  rw [htext]
  obtain ⟨c, t, hct⟩ := List.exists_cons_of_ne_nil (natText_ne_nil n.natAbs)
  have hdigit : isDigit c = true := isDigit_of_mem_natText (n := n.natAbs) (hct ▸ List.mem_cons_self)
  rw [hct, List.cons_append, List.dropWhile_cons_of_neg (by simp [not_isSpace_of_isDigit hdigit])]

theorem readIsoUtc_strftime {t : Civil} (ht : t.Valid) (hy : 1000 ≤ t.year ∧ t.year ≤ 9999) :
    readIsoUtc (strftime t) = some (seconds t) := by
  have hmonth : ((1 : Nat) : Int) ≤ t.month ∧ t.month ≤ (12 : Nat) := ht.month
  have hday : ((1 : Nat) : Int) ≤ t.day ∧ t.day ≤ (31 : Nat) := ht.day
  have hhour : ((0 : Nat) : Int) ≤ t.hour ∧ t.hour ≤ (23 : Nat) := ht.hour
  have hminute : ((0 : Nat) : Int) ≤ t.minute ∧ t.minute ≤ (59 : Nat) := ht.minute
  have hsecond : ((0 : Nat) : Int) ≤ t.second ∧ t.second ≤ (60 : Nat) :=
    ⟨ht.second.1, ht.second.2.trans (by decide)⟩
  unfold readIsoUtc strftime
  rw [dropWhile_intText hy, field_year hy]
  simp only [Option.bind_eq_bind, Option.bind_some, literal_cons,
    field_twoDigits hmonth.1 hmonth.2 (by decide), field_twoDigits hday.1 hday.2 (by decide),
    field_twoDigits hhour.1 hhour.2 (by decide), field_twoDigits hminute.1 hminute.2 (by decide),
    field_twoDigits hsecond.1 hsecond.2 (by decide)]
  have hcast : ∀ {m : Int}, ((0 : Nat) : Int) ≤ m → (m.toNat : Int) = m := Int.toNat_of_nonneg
  obtain ⟨year, month, day, hour, minute, second⟩ := t
  dsimp only at hmonth hday hhour hminute hsecond hy ⊢
  rw [hcast (by omega), hcast (by omega), hcast (by omega), hcast (by omega), hcast (by omega),
    hcast (by omega)]
  rfl

/-- Dropping the fraction of a second is no rounding down before 1970. -/
theorem tdiv_bounds (t : Int) :
    t / 1000000000 ≤ t.tdiv 1000000000 ∧ t.tdiv 1000000000 ≤ t / 1000000000 + 1 := by
  have hsign : Int.sign 1000000000 = 1 := rfl
  rw [Int.tdiv_eq_ediv, hsign]
  split <;> omega

theorem tdiv_mul_le (t : Int) : t.tdiv 1000000000 * 1000000000 ≤ max t 0 := by
  rcases Int.le_total 0 t with ht | ht
  · have hdiv : t.tdiv 1000000000 = t / 1000000000 := Int.tdiv_eq_ediv_of_nonneg ht
    rw [hdiv]
    omega
  · have hdiv : (-t).tdiv 1000000000 = -t / 1000000000 := Int.tdiv_eq_ediv_of_nonneg (by omega)
    rw [Int.neg_tdiv] at hdiv
    omega

/-- A reading of the clock is read back from its text, without the fraction of its second. -/
theorem readIsoUtc_formatIsoUtc (now : Int64) :
    readIsoUtc (formatIsoUtc now.toInt) = some (now.toInt.tdiv 1000000000) := by
  have hnow : -2 ^ 63 ≤ now.toInt ∧ now.toInt < 2 ^ 63 := ⟨now.le_toInt, now.toInt_lt⟩
  have hseconds := tdiv_bounds now.toInt
  have hyear := @year_bounds (now.toInt.tdiv 1000000000) (by omega)
  rw [formatIsoUtc, readIsoUtc_strftime (valid_civil _) (by omega), seconds_civil]

end ExamVan.Helpers
