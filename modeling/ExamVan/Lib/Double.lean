import ExamVan.Lib.Decimal
import ExamVan.Lib.JsonText
import Mathlib.Algebra.Order.Field.Rat
import Mathlib.Data.Int.Log
import Mathlib.Data.Rat.Floor

/-!
# Numbers of type `double`

A `double` is the rational number that it stands for. Numbers are rounded to 53 binary digits, a tie to
the even one; nothing here is so small or so large that a `double` has fewer digits or is infinite.
-/

namespace ByteString

/-- The nearest integer, the even one of two. -/
def roundEven (x : ℚ) : Int :=
  if x - ⌊x⌋ < 1 / 2 then ⌊x⌋
  else if 1 / 2 < x - ⌊x⌋ then ⌊x⌋ + 1
  else if ⌊x⌋ % 2 = 0 then ⌊x⌋ else ⌊x⌋ + 1

/-- The distance of the doubles around `x`. -/
def ulp (x : ℚ) : ℚ := 2 ^ (Int.log 2 |x| - 52)

/-- The nearest `double`. -/
def nearest (x : ℚ) : ℚ := if x = 0 then 0 else roundEven (x / ulp x) * ulp x

/-- `%.2f`, and `std::fixed` with two digits. -/
def fixedTwo (x : ℚ) : Bytes :=
  let hundredths := (roundEven (|x| * 100)).toNat
  let digits := natText (hundredths / 100) ++ chr '.' ::
    [48 + UInt8.ofNat (hundredths / 10 % 10), 48 + UInt8.ofNat (hundredths % 10)]
  if x < 0 then chr '-' :: digits else digits

theorem abs_roundEven_sub_le (x : ℚ) : |roundEven x - x| ≤ 1 / 2 := by
  have hle := Int.floor_le x
  have hlt := Int.lt_floor_add_one x
  unfold roundEven
  split_ifs with hlow hhigh heven
  all_goals
    rw [abs_le]
    push_cast
    constructor <;> linarith

theorem ulp_le {x : ℚ} (hx : x ≠ 0) : ulp x ≤ |x| / 2 ^ 52 := by
  have hlog := Int.zpow_log_le_self (b := 2) (by norm_num) (abs_pos.mpr hx)
  have hulp : ulp x = 2 ^ Int.log 2 |x| / 2 ^ 52 := by
    rw [ulp, zpow_sub₀ (by norm_num)]
    norm_num
  rw [hulp]
  gcongr
  exact_mod_cast hlog

theorem ulp_pos (x : ℚ) : 0 < ulp x := zpow_pos (by norm_num) _

/-- A `double` has 53 binary digits. -/
theorem abs_nearest_sub_le (x : ℚ) : |nearest x - x| ≤ |x| / 2 ^ 53 := by
  by_cases hx : x = 0
  · simp [nearest, hx]
  have hpos := ulp_pos x
  have hround := abs_roundEven_sub_le (x / ulp x)
  have hcancel : x / ulp x * ulp x = x := div_mul_cancel₀ x hpos.ne'
  calc |nearest x - x| = |roundEven (x / ulp x) - x / ulp x| * ulp x := by
        rw [nearest, if_neg hx, ← abs_of_pos hpos, ← abs_mul, abs_of_pos hpos, sub_mul, hcancel]
    _ ≤ 1 / 2 * (|x| / 2 ^ 52) := by
        gcongr
        exact ulp_le hx
    _ = |x| / 2 ^ 53 := by ring

theorem nearest_nonneg {x : ℚ} (hx : 0 ≤ x) : 0 ≤ nearest x := by
  have herror := abs_nearest_sub_le x
  rw [abs_of_nonneg hx, abs_le] at herror
  have hsmall : x / 2 ^ 53 ≤ x := div_le_self hx (by norm_num)
  linarith [herror.1]

/-- Any number less than a half away rounds to the integer. -/
theorem roundEven_eq {x : ℚ} {n : ℤ} (h : |x - n| < 1 / 2) : roundEven x = n := by
  have hround := abs_roundEven_sub_le x
  rw [abs_lt] at h
  rw [abs_le] at hround
  have hlow : (roundEven x : ℚ) < n + 1 := by linarith
  have hhigh : (n : ℚ) < roundEven x + 1 := by linarith
  have hle : roundEven x < n + 1 := by exact_mod_cast hlow
  have hge : n < roundEven x + 1 := by exact_mod_cast hhigh
  omega

end ByteString

/-!
## Reading a `double`

`atof` reads a decimal or hexadecimal number at the start of a text, and zero where there is none.
-/

namespace ByteString

/-- The number that a run of hexadecimal digits spells. -/
def hexDigitsValue (digits : Bytes) : Nat :=
  digits.foldl (fun acc c => 16 * acc + JsonText.hexDigitValue c) 0

/-- Digits with at most one point among them, as a multiple of a power of the base, and what follows
them. -/
def significand (digit : UInt8 → Bool) (value : Bytes → Nat) (base : Nat) (s : Bytes) :
    Option (ℚ × Bytes) :=
  let whole := s.takeWhile digit
  let rest := s.dropWhile digit
  let pointed := rest.head? = some (chr '.')
  let fraction := if pointed then rest.tail.takeWhile digit else []
  if whole ++ fraction = [] then none
  else some (value (whole ++ fraction) / base ^ fraction.length,
    if pointed then rest.tail.dropWhile digit else rest)

/-- The exponent behind a letter of either case. -/
def exponent (mark : UInt8) : Bytes → Int
  | [] => 0
  | c :: t =>
      if tolower c = mark then
        match t with
        | [] => 0
        | d :: u =>
            (if d = chr '-' then signedValue true u
            else if d = chr '+' then signedValue false u
            else signedValue false t).getD 0
      else 0

/-- The number behind the sign; there is none for an infinity and where no number is meant. -/
def magnitude (s : Bytes) : Option ℚ :=
  let lower := s.map tolower
  if str "inf" <+: lower ∨ str "nan" <+: lower then none
  else
    match if str "0x" <+: lower then significand JsonText.isHexDigit hexDigitsValue 16 (s.drop 2)
      else none with
    | some r => some (r.1 * 2 ^ exponent (chr 'p') r.2)
    | none =>
        match significand isDigit digitsValue 10 s with
        | some r => some (r.1 * 10 ^ exponent (chr 'e') r.2)
        | none => some 0

/-- `std::atof(s)`, where it is finite. -/
def atof (s : Bytes) : Option ℚ :=
  match s.dropWhile isSpace with
  | [] => some 0
  | c :: t =>
      if c = chr '-' then (magnitude t).map fun x => nearest (-x)
      else if c = chr '+' then (magnitude t).map nearest
      else (magnitude (c :: t)).map nearest

theorem isDigit_tolower {c : UInt8} (h : isDigit c = true) : tolower c = c := by
  have hall : ∀ c : UInt8, isDigit c = true → tolower c = c := forall_byte (by decide)
  exact hall c h

/-- The text of a number of hundredths. -/
theorem significand_hundredths (n : ℕ) :
    significand isDigit digitsValue 10 (natText (n / 100) ++ chr '.' ::
      [48 + UInt8.ofNat (n / 10 % 10), 48 + UInt8.ofNat (n % 10)]) = some ((n : ℚ) / 100, []) := by
  have hten : n / 10 % 10 < 10 := Nat.mod_lt _ (by norm_num)
  have hone : n % 10 < 10 := Nat.mod_lt _ (by norm_num)
  have htake : ∀ t, (natText (n / 100) ++ chr '.' :: t).takeWhile isDigit = natText (n / 100) := by
    intro t
    rw [List.takeWhile_append_of_pos fun c hc => isDigit_of_mem_natText hc,
      List.takeWhile_cons_of_neg (by decide), List.append_nil]
  have hdrop : ∀ t, (natText (n / 100) ++ chr '.' :: t).dropWhile isDigit = chr '.' :: t := by
    intro t
    rw [List.dropWhile_append_of_pos fun c hc => isDigit_of_mem_natText hc,
      List.dropWhile_cons_of_neg (by decide)]
  have hvalue : digitsValue (natText (n / 100) ++
      [48 + UInt8.ofNat (n / 10 % 10), 48 + UInt8.ofNat (n % 10)]) = n := by
    have hwhole := digitsValue_natText (n / 100)
    unfold digitsValue at hwhole ⊢
    rw [List.foldl_append, hwhole]
    simp only [List.foldl_cons, List.foldl_nil, digitByte_toNat hten, digitByte_toNat hone]
    omega
  simp only [significand, htake, hdrop, List.head?_cons, List.tail_cons, List.takeWhile_cons,
    List.dropWhile_cons, isDigit_digitByte hten, isDigit_digitByte hone, List.takeWhile_nil,
    List.dropWhile_nil, if_true, hvalue]
  simp
  norm_num

theorem magnitude_hundredths (n : ℕ) :
    magnitude (natText (n / 100) ++ chr '.' ::
      [48 + UInt8.ofNat (n / 10 % 10), 48 + UInt8.ofNat (n % 10)]) = some ((n : ℚ) / 100) := by
  have hsig := significand_hundredths n
  have hten : n / 10 % 10 < 10 := Nat.mod_lt _ (by norm_num)
  have hone : n % 10 < 10 := Nat.mod_lt _ (by norm_num)
  set s := natText (n / 100) ++ chr '.' ::
    [48 + UInt8.ofNat (n / 10 % 10), 48 + UInt8.ofNat (n % 10)] with hs
  have hbytes : ∀ c ∈ s.map tolower, isDigit c = true ∨ c = chr '.' := by
    intro c hc
    obtain ⟨b, hb, rfl⟩ := List.mem_map.mp hc
    simp only [hs, List.mem_append, List.mem_cons, List.not_mem_nil, or_false] at hb
    rcases hb with hb | rfl | rfl | rfl
    · have hdigit := isDigit_of_mem_natText hb
      exact .inl ((isDigit_tolower hdigit).symm ▸ hdigit)
    · exact .inr (by decide)
    · exact .inl ((isDigit_tolower (isDigit_digitByte hten)).symm ▸ isDigit_digitByte hten)
    · exact .inl ((isDigit_tolower (isDigit_digitByte hone)).symm ▸ isDigit_digitByte hone)
  have hno : ∀ {w : Bytes}, (∃ c ∈ w, isDigit c = false ∧ c ≠ chr '.') → ¬ w <+: s.map tolower := by
    rintro w ⟨c, hc, hdigit, hpoint⟩ hw
    rcases hbytes c (hw.subset hc) with h | h
    · rw [hdigit] at h
      cases h
    · exact hpoint h
  rw [magnitude]
  have hinf : ¬ str "inf" <+: s.map tolower := hno ⟨chr 'n', by decide⟩
  have hnan : ¬ str "nan" <+: s.map tolower := hno ⟨chr 'n', by decide⟩
  have hhex : ¬ str "0x" <+: s.map tolower := hno ⟨chr 'x', by decide⟩
  simp only [hinf, hnan, hhex, or_self, if_false, hsig, exponent, zpow_zero, mul_one]

/-- Two digits behind the point are read as they were written. -/
theorem atof_fixedTwo {x : ℚ} (hx : 0 ≤ x) :
    atof (fixedTwo x) = some (nearest ((roundEven (x * 100)).toNat / 100)) := by
  have hmagnitude := magnitude_hundredths (roundEven (x * 100)).toNat
  rw [fixedTwo, if_neg (not_lt.mpr hx), abs_of_nonneg hx]
  obtain ⟨c, t, hct⟩ := List.exists_cons_of_ne_nil (natText_ne_nil ((roundEven (x * 100)).toNat / 100))
  have hdigit := isDigit_of_mem_natText (hct ▸ List.mem_cons_self : c ∈ natText _)
  have hminus : c ≠ chr '-' := by
    rintro rfl
    exact absurd hdigit (by decide)
  have hplus : c ≠ chr '+' := by
    rintro rfl
    exact absurd hdigit (by decide)
  rw [hct, List.cons_append] at hmagnitude ⊢
  rw [atof, List.dropWhile_cons_of_neg (by rw [not_isSpace_of_isDigit hdigit]; exact Bool.false_ne_true)]
  dsimp only
  rw [if_neg hminus, if_neg hplus, hmagnitude, Option.map_some]

end ByteString
