import ExamVan.Lib.Bytes
import Mathlib.Data.List.TakeWhile
import Mathlib.Data.Nat.Digits.Lemmas

/-!
# Decimal numbers

`std::to_string` and `std::stoi` on 32-bit integers, and that the second undoes the first.
-/

namespace ByteString

/-- The decimal digits of a natural number, most significant first. -/
def natText (n : Nat) : Bytes :=
  if n = 0 then str "0" else (Nat.digits 10 n).reverse.map fun d => 48 + UInt8.ofNat d

/-- `std::to_string(n)`. -/
def intText (n : Int) : Bytes :=
  if n < 0 then chr '-' :: natText n.natAbs else natText n.natAbs

def isDigit (c : UInt8) : Bool := 48 ≤ c && c ≤ 57

/-- `isspace` in the C locale. -/
def isSpace (c : UInt8) : Bool := c = 32 || (9 ≤ c && c ≤ 13)

/-- The number that a run of digits spells. -/
def digitsValue (digits : Bytes) : Nat :=
  digits.foldl (fun acc c => 10 * acc + (c.toNat - 48)) 0

/-- The number after the optional sign; `none` when there is no digit. -/
def signedValue (negative : Bool) (s : Bytes) : Option Int :=
  let digits := s.takeWhile isDigit
  if digits = [] then none
  else some (if negative then -(digitsValue digits : Int) else digitsValue digits)

/-- The number at the start of a text, as `strtol` reads it. -/
def strtol (s : Bytes) : Option Int :=
  match s.dropWhile isSpace with
  | [] => none
  | c :: t =>
      if c = chr '-' then signedValue true t
      else if c = chr '+' then signedValue false t
      else signedValue false (c :: t)

/-- `std::stoi(s)`, with `none` where it throws: no number, or one outside the range of `int`. -/
def stoi (s : Bytes) : Option Int32 :=
  match strtol s with
  | none => none
  | some n => if -2 ^ 31 ≤ n ∧ n < 2 ^ 31 then some (Int32.ofInt n) else none

/-- `std::stoll(s)`. -/
def stoll (s : Bytes) : Option Int64 :=
  match strtol s with
  | none => none
  | some n => if -2 ^ 63 ≤ n ∧ n < 2 ^ 63 then some (Int64.ofInt n) else none

/-- The digits of an unsigned number; a minus sign wraps around. -/
def unsignedValue (negative : Bool) (s : Bytes) : Option Nat :=
  let digits := s.takeWhile isDigit
  let n := digitsValue digits
  if digits = [] ∨ 2 ^ 64 ≤ n then none
  else some (if negative then (2 ^ 64 - n) % 2 ^ 64 else n)

/-- `std::stoul(s)` -/
def stoul (s : Bytes) : Option Nat :=
  match s.dropWhile isSpace with
  | [] => none
  | c :: t =>
      if c = chr '-' then unsignedValue true t
      else if c = chr '+' then unsignedValue false t
      else unsignedValue false (c :: t)

theorem digitByte_toNat {d : Nat} (h : d < 10) : (48 + UInt8.ofNat d).toNat = 48 + d := by
  rw [UInt8.toNat_add, UInt8.toNat_ofNat']
  simp only [UInt8.reduceToNat]
  omega

theorem isDigit_digitByte {d : Nat} (h : d < 10) : isDigit (48 + UInt8.ofNat d) = true := by
  have hval := digitByte_toNat h
  simp only [isDigit, Bool.and_eq_true, decide_eq_true_eq, UInt8.le_iff_toNat_le, hval]
  simp only [UInt8.reduceToNat]
  omega

theorem natText_eq_map (n : Nat) : ∃ digits : List Nat, (∀ d ∈ digits, d < 10) ∧ digits ≠ [] ∧
    natText n = digits.map (fun d => 48 + UInt8.ofNat d) ∧
    digits.foldl (fun acc d => 10 * acc + d) 0 = n := by
  by_cases hzero : n = 0
  · exact ⟨[0], by simp, by simp, by rw [natText, if_pos hzero]; rfl, by simp [hzero]⟩
  · refine ⟨(Nat.digits 10 n).reverse, ?_, ?_, by rw [natText, if_neg hzero], ?_⟩
    · intro d hd
      exact Nat.digits_lt_base (by norm_num) (List.mem_reverse.mp hd)
    · simpa using Nat.digits_ne_nil_iff_ne_zero.mpr hzero
    · rw [List.foldl_reverse]
      conv_rhs => rw [← Nat.ofDigits_digits 10 n]
      rw [Nat.ofDigits_eq_foldr]
      congr 1
      funext d acc
      simp [Nat.add_comm]

theorem isDigit_of_mem_natText {n : Nat} {c : UInt8} (h : c ∈ natText n) : isDigit c = true := by
  obtain ⟨digits, hlt, -, htext, -⟩ := natText_eq_map n
  rw [htext] at h
  obtain ⟨d, hd, rfl⟩ := List.mem_map.mp h
  exact isDigit_digitByte (hlt d hd)

theorem natText_ne_nil (n : Nat) : natText n ≠ [] := by
  obtain ⟨digits, -, hne, htext, -⟩ := natText_eq_map n
  simp [htext, hne]

theorem digitsValue_natText (n : Nat) : digitsValue (natText n) = n := by
  obtain ⟨digits, hlt, -, htext, hvalue⟩ := natText_eq_map n
  have hfold : ∀ (l : List Nat) (acc : Nat), (∀ d ∈ l, d < 10) →
      (l.map fun d => 48 + UInt8.ofNat d).foldl (fun acc c => 10 * acc + (c.toNat - 48)) acc
        = l.foldl (fun acc d => 10 * acc + d) acc := by
    intro l
    induction l with
    | nil => intro acc _; rfl
    | cons d l ih =>
        intro acc hl
        have hd : (48 + UInt8.ofNat d).toNat - 48 = d := by
          rw [digitByte_toNat (hl d List.mem_cons_self)]
          omega
        rw [List.map_cons, List.foldl_cons, hd, ih _ fun e he => hl e (List.mem_cons_of_mem d he),
          List.foldl_cons]
  rw [digitsValue, htext, hfold digits 0 hlt, hvalue]

theorem signedValue_natText (negative : Bool) (n : Nat) :
    signedValue negative (natText n) = some (if negative then -(n : Int) else n) := by
  have hall : (natText n).takeWhile isDigit = natText n :=
    List.takeWhile_eq_self_iff.mpr fun c hc => isDigit_of_mem_natText hc
  simp only [signedValue, hall, natText_ne_nil, if_false, digitsValue_natText]

theorem not_isSpace_of_isDigit {c : UInt8} (h : isDigit c = true) : isSpace c = false := by
  simp only [isDigit, Bool.and_eq_true, decide_eq_true_eq, UInt8.le_iff_toNat_le,
    UInt8.reduceToNat] at h
  simp only [isSpace, Bool.or_eq_false_iff, Bool.and_eq_false_iff, decide_eq_false_iff_not,
    UInt8.not_le, UInt8.lt_iff_toNat_lt, UInt8.reduceToNat]
  refine ⟨?_, Or.inr (by omega)⟩
  rintro rfl
  simp at h

theorem strtol_intText (n : Int) : strtol (intText n) = some n := by
  unfold intText
  split
  · next hneg =>
      have hdrop : (chr '-' :: natText n.natAbs).dropWhile isSpace = chr '-' :: natText n.natAbs :=
        List.dropWhile_cons_of_neg (by decide)
      simp only [strtol, hdrop, if_true, signedValue_natText]
      congr 1
      omega
  · next hpos =>
      obtain ⟨c, t, hct⟩ := List.exists_cons_of_ne_nil (natText_ne_nil n.natAbs)
      have hdigit : isDigit c = true := isDigit_of_mem_natText (hct ▸ List.mem_cons_self)
      have hminus : c ≠ chr '-' := by rintro rfl; exact absurd hdigit (by decide)
      have hplus : c ≠ chr '+' := by rintro rfl; exact absurd hdigit (by decide)
      have hdrop : (natText n.natAbs).dropWhile isSpace = c :: t := by
        rw [hct, List.dropWhile_cons_of_neg (by simp [not_isSpace_of_isDigit hdigit])]
      simp only [strtol, hdrop, hminus, hplus, if_false]
      rw [← hct, signedValue_natText]
      congr 1
      simp only [Bool.false_eq_true, if_false]
      omega

/-- `std::stoi(std::to_string(n)) = n`. -/
@[simp]
theorem stoi_intText (n : Int32) : stoi (intText n.toInt) = some n := by
  have hrange : (-2 ^ 31 : Int) ≤ n.toInt ∧ n.toInt < 2 ^ 31 := ⟨n.le_toInt, n.toInt_lt⟩
  simp only [stoi, strtol_intText, hrange, and_self, if_true, Int32.ofInt_toInt]

@[simp]
theorem stoll_intText (n : Int64) : stoll (intText n.toInt) = some n := by
  have hrange : (-2 ^ 63 : Int) ≤ n.toInt ∧ n.toInt < 2 ^ 63 := ⟨n.le_toInt, n.toInt_lt⟩
  simp only [stoll, strtol_intText, hrange, and_self, if_true, Int64.ofInt_toInt]

/-- The text of a number is made of digits and a minus sign. -/
theorem mem_intText {n : Int} {c : UInt8} (h : c ∈ intText n) : c = chr '-' ∨ isDigit c = true := by
  unfold intText at h
  split at h
  · rcases List.mem_cons.mp h with h | h
    · exact Or.inl h
    · exact Or.inr (isDigit_of_mem_natText h)
  · exact Or.inr (isDigit_of_mem_natText h)

theorem intText_ne_nil (n : Int) : intText n ≠ [] := by
  unfold intText
  split
  · simp
  · exact natText_ne_nil _

theorem stoi_digits {t : Bytes} (hne : t ≠ []) (ht : ∀ c ∈ t, isDigit c = true) :
    stoi t = if digitsValue t < 2 ^ 31 then some (Int32.ofInt (digitsValue t)) else none := by
  obtain ⟨c, t, rfl⟩ := List.exists_cons_of_ne_nil hne
  have hc : isDigit c = true := ht c List.mem_cons_self
  have hminus : c ≠ chr '-' := by rintro rfl; exact absurd hc (by decide)
  have hplus : c ≠ chr '+' := by rintro rfl; exact absurd hc (by decide)
  have hstrtol : strtol (c :: t) = some (digitsValue (c :: t) : Int) := by
    rw [strtol, List.dropWhile_cons_of_neg (by simp [not_isSpace_of_isDigit hc])]
    dsimp only
    rw [if_neg hminus, if_neg hplus, signedValue, List.takeWhile_eq_self_iff.mpr ht]
    simp
  rw [stoi, hstrtol]
  dsimp only
  by_cases h : digitsValue (c :: t) < 2 ^ 31
  · rw [if_pos h, if_pos ⟨by omega, by omega⟩]
  · rw [if_neg h, if_neg (by omega)]

theorem stoi_natText {n : Nat} (h : n < 2 ^ 31) :
    (stoi (natText n)).map Int32.toInt = some (n : Int) := by
  rw [stoi_digits (natText_ne_nil n) fun c hc => isDigit_of_mem_natText hc, digitsValue_natText,
    if_pos h, Option.map_some, Int32.toInt_ofInt_of_le (by omega) (by omega)]

/-- A number that ends at a byte of no number is read back from the text. -/
theorem intText_append_inj {c : UInt8} (hsign : c ≠ chr '-') (hdigit : isDigit c = false)
    {m n : Int32} {s t : Bytes} :
    intText m.toInt ++ c :: s = intText n.toInt ++ c :: t ↔ m = n ∧ s = t := by
  have hnumber : ∀ (n : Int32) (rest : Bytes),
      (intText n.toInt ++ c :: rest).takeWhile (· ≠ c) = intText n.toInt := by
    intro n rest
    have hne : ∀ d ∈ intText n.toInt, decide (d ≠ c) = true := by
      intro d hd
      rcases mem_intText hd with rfl | hdigit'
      · exact decide_eq_true (Ne.symm hsign)
      · exact decide_eq_true fun heq => by rw [heq, hdigit] at hdigit'; cases hdigit'
    rw [List.takeWhile_append_of_pos hne, List.takeWhile_cons_of_neg (by simp), List.append_nil]
  constructor
  · intro h
    have htext : intText m.toInt = intText n.toInt := by rw [← hnumber m s, h, hnumber n t]
    have hstoi : some m = some n := by rw [← stoi_intText m, ← stoi_intText n, htext]
    obtain rfl := Option.some.inj hstoi
    exact ⟨rfl, (List.cons.inj (List.append_cancel_left h)).2⟩
  · rintro ⟨rfl, rfl⟩
    rfl

end ByteString
