import ExamVan.Lib.Bytes

/-!
# Base64 with padding
-/

namespace Base64

open ByteString

/-! ### Sextets -/

def digit (n : Nat) : UInt8 :=
  if n < 26 then chr 'A' + UInt8.ofNat n
  else if n < 52 then chr 'a' + UInt8.ofNat (n - 26)
  else if n < 62 then chr '0' + UInt8.ofNat (n - 52)
  else if n = 62 then chr '+'
  else chr '/'

/-- The padding sign counts as zero bits. -/
def digitValue (c : UInt8) : Option Nat :=
  if chr 'A' ≤ c ∧ c ≤ chr 'Z' then some (c - chr 'A').toNat
  else if chr 'a' ≤ c ∧ c ≤ chr 'z' then some ((c - chr 'a').toNat + 26)
  else if chr '0' ≤ c ∧ c ≤ chr '9' then some ((c - chr '0').toNat + 52)
  else if c = chr '+' then some 62
  else if c = chr '/' then some 63
  else if c = chr '=' then some 0
  else none

def encode : Bytes → Bytes
  | [] => []
  | [a] => [digit (a.toNat / 4), digit (a.toNat % 4 * 16), chr '=', chr '=']
  | [a, b] =>
      [digit (a.toNat / 4), digit (a.toNat % 4 * 16 + b.toNat / 16), digit (b.toNat % 16 * 4), chr '=']
  | a :: b :: c :: s =>
      digit (a.toNat / 4) :: digit (a.toNat % 4 * 16 + b.toNat / 16) ::
        digit (b.toNat % 16 * 4 + c.toNat / 64) :: digit (c.toNat % 64) :: encode s

/-- Three bytes for every four digits. -/
def decodeGroups : Bytes → Option Bytes
  | [] => some []
  | a :: b :: c :: d :: s =>
      match digitValue a, digitValue b, digitValue c, digitValue d, decodeGroups s with
      | some a, some b, some c, some d, some s =>
          some (UInt8.ofNat (a * 4 + b / 16) :: UInt8.ofNat (b % 16 * 16 + c / 4) ::
            UInt8.ofNat (c % 4 * 64 + d) :: s)
      | _, _, _, _, _ => none
  | _ => none

/-- How many padding signs a text ends with, of at most two. -/
def padding (s : Bytes) : Nat :=
  if [chr '=', chr '='] <:+ s then 2 else if s.getLast? = some (chr '=') then 1 else 0

/-! ### Groups -/

theorem encode_one (a : UInt8) :
    encode [a] = [digit (a.toNat / 4), digit (a.toNat % 4 * 16), chr '=', chr '='] := rfl

theorem encode_two (a b : UInt8) : encode [a, b] =
    [digit (a.toNat / 4), digit (a.toNat % 4 * 16 + b.toNat / 16), digit (b.toNat % 16 * 4), chr '='] := rfl

theorem encode_cons (a b c : UInt8) (s : Bytes) : encode (a :: b :: c :: s) =
    digit (a.toNat / 4) :: digit (a.toNat % 4 * 16 + b.toNat / 16) ::
      digit (b.toNat % 16 * 4 + c.toNat / 64) :: digit (c.toNat % 64) :: encode s := rfl

theorem decodeGroups_cons (a b c d : UInt8) (s : Bytes) : decodeGroups (a :: b :: c :: d :: s) =
    match digitValue a, digitValue b, digitValue c, digitValue d, decodeGroups s with
    | some a, some b, some c, some d, some s =>
        some (UInt8.ofNat (a * 4 + b / 16) :: UInt8.ofNat (b % 16 * 16 + c / 4) ::
          UInt8.ofNat (c % 4 * 64 + d) :: s)
    | _, _, _, _, _ => none := rfl

theorem groups_induction {motive : Bytes → Prop} (nil : motive []) (one : ∀ a, motive [a])
    (two : ∀ a b, motive [a, b]) (cons : ∀ a b c s, motive s → motive (a :: b :: c :: s)) :
    ∀ s, motive s
  | [] => nil
  | [a] => one a
  | [a, b] => two a b
  | a :: b :: c :: s => cons a b c s (groups_induction nil one two cons s)

variable {s : Bytes} {c : UInt8}

theorem digitValue_digit {n : Nat} (hn : n < 64) : digitValue (digit n) = some n := by
  have hall : ∀ n < 64, digitValue (digit n) = some n := by decide +kernel
  exact hall n hn

theorem byte_eq {n : Nat} (a : UInt8) (h : n = a.toNat) : UInt8.ofNat n = a := by
  rw [h, UInt8.ofNat_toNat]

/-- A digit or the padding sign. -/
def isDigitOrPad (c : UInt8) : Bool := (digitValue c).isSome

theorem isDigitOrPad_digit {n : Nat} (hn : n < 64) : isDigitOrPad (digit n) = true := by
  rw [isDigitOrPad, digitValue_digit hn]
  rfl

theorem isDigitOrPad_of_mem_encode (h : c ∈ encode s) : isDigitOrPad c = true := by
  have hpad : isDigitOrPad (chr '=') = true := by decide
  induction s using groups_induction with
  | nil => cases h
  | one a =>
      have ha := a.toNat_lt
      rw [encode_one] at h
      simp only [List.mem_cons, List.not_mem_nil, or_false] at h
      rcases h with rfl | rfl | rfl | rfl
      · exact isDigitOrPad_digit (by omega)
      · exact isDigitOrPad_digit (by omega)
      · exact hpad
      · exact hpad
  | two a b =>
      have ha := a.toNat_lt
      have hb := b.toNat_lt
      rw [encode_two] at h
      simp only [List.mem_cons, List.not_mem_nil, or_false] at h
      rcases h with rfl | rfl | rfl | rfl
      · exact isDigitOrPad_digit (by omega)
      · exact isDigitOrPad_digit (by omega)
      · exact isDigitOrPad_digit (by omega)
      · exact hpad
  | cons a b d s ih =>
      have ha := a.toNat_lt
      have hb := b.toNat_lt
      have hd := d.toNat_lt
      rw [encode_cons] at h
      simp only [List.mem_cons] at h
      rcases h with rfl | rfl | rfl | rfl | h
      · exact isDigitOrPad_digit (by omega)
      · exact isDigitOrPad_digit (by omega)
      · exact isDigitOrPad_digit (by omega)
      · exact isDigitOrPad_digit (by omega)
      · exact ih h

theorem length_encode_mod (s : Bytes) : (encode s).length % 4 = 0 := by
  induction s using groups_induction with
  | nil => rfl
  | one a => simp [encode_one]
  | two a b => simp [encode_two]
  | cons a b c s ih =>
      simp only [encode_cons, List.length_cons]
      omega

theorem encode_eq_nil_iff : encode s = [] ↔ s = [] := by
  induction s using groups_induction with
  | nil => exact iff_of_true rfl rfl
  | one a => exact iff_of_false (List.cons_ne_nil _ _) (List.cons_ne_nil _ _)
  | two a b => exact iff_of_false (List.cons_ne_nil _ _) (List.cons_ne_nil _ _)
  | cons a b c s _ => exact iff_of_false (List.cons_ne_nil _ _) (List.cons_ne_nil _ _)

/-! ### Padding -/

theorem digit_ne_pad {n : Nat} (hn : n < 64) : digit n ≠ chr '=' := by
  have hall : ∀ n < 64, digit n ≠ chr '=' := by decide +kernel
  exact hall n hn

theorem padding_append {t : Bytes} (h : 2 ≤ t.length) (s : Bytes) : padding (s ++ t) = padding t := by
  have hne : t ≠ [] := List.ne_nil_of_length_pos (by omega)
  have hsuffix : [chr '=', chr '='] <:+ s ++ t ↔ [chr '=', chr '='] <:+ t :=
    ⟨fun hs => List.suffix_of_suffix_length_le hs (List.suffix_append s t) h,
      fun ht => ht.trans (List.suffix_append s t)⟩
  rw [padding, padding, List.getLast?_append_of_ne_nil s hne]
  simp only [hsuffix]

/-- A last group without padding. -/
theorem padding_of_getLast?_ne (h : s.getLast? ≠ some (chr '=')) : padding s = 0 := by
  have hno : ¬ [chr '=', chr '='] <:+ s := by
    rintro ⟨t, rfl⟩
    exact h (by simp)
  rw [padding, if_neg hno, if_neg h]

theorem padding_encode (s : Bytes) : padding (encode s) = (3 - s.length % 3) % 3 := by
  induction s using groups_induction with
  | nil => rfl
  | one a =>
      have hsuffix : [chr '=', chr '='] <:+ encode [a] := by
        rw [encode_one]
        exact ⟨[_, _], rfl⟩
      rw [padding, if_pos hsuffix]
      rfl
  | two a b =>
      have hb := b.toNat_lt
      have hno : ¬ [chr '=', chr '='] <:+ encode [a, b] := by
        rintro ⟨t, ht⟩
        rw [encode_two] at ht
        have hrev := congrArg List.reverse ht
        simp at hrev
        exact digit_ne_pad (by omega) hrev.1.symm
      rw [padding, if_neg hno, if_pos (by simp [encode_two])]
      rfl
  | cons a b c s ih =>
      have hlength : (a :: b :: c :: s).length % 3 = s.length % 3 := by
        simp only [List.length_cons]
        omega
      rw [hlength, ← ih]
      by_cases hs : s = []
      · have hc := c.toNat_lt
        have hd := digit_ne_pad (n := c.toNat % 64) (by omega)
        rw [hs]
        exact padding_of_getLast?_ne (by simpa [encode_cons, show encode [] = [] from rfl] using hd)
      · have hmod := length_encode_mod s
        have hpos := List.length_pos_of_ne_nil (mt encode_eq_nil_iff.mp hs)
        rw [encode_cons]
        exact padding_append (by omega) [_, _, _, _]

/-- The bytes come back, and a zero byte for every padding sign. -/
theorem decodeGroups_encode (s : Bytes) :
    decodeGroups (encode s) = some (s ++ List.replicate ((3 - s.length % 3) % 3) 0) := by
  have hpad : digitValue (chr '=') = some 0 := by decide
  induction s using groups_induction with
  | nil => rfl
  | one a =>
      have ha := a.toNat_lt
      rw [encode_one, decodeGroups_cons, digitValue_digit (by omega), digitValue_digit (by omega), hpad]
      refine congrArg some (List.cons_eq_cons.mpr ⟨byte_eq a (by omega), ?_⟩)
      have hzero : ∀ n, n = 0 → UInt8.ofNat n = 0 := by rintro n rfl; rfl
      rw [hzero _ (by omega), hzero _ (by omega)]
      rfl
  | two a b =>
      have ha := a.toNat_lt
      have hb := b.toNat_lt
      rw [encode_two, decodeGroups_cons, digitValue_digit (by omega), digitValue_digit (by omega),
        digitValue_digit (by omega), hpad]
      have hzero : ∀ n, n = 0 → UInt8.ofNat n = 0 := by rintro n rfl; rfl
      refine congrArg some (List.cons_eq_cons.mpr ⟨byte_eq a (by omega),
        List.cons_eq_cons.mpr ⟨byte_eq b (by omega), ?_⟩⟩)
      rw [hzero _ (by omega)]
      rfl
  | cons a b c s ih =>
      have ha := a.toNat_lt
      have hb := b.toNat_lt
      have hc := c.toNat_lt
      have hlength : (a :: b :: c :: s).length % 3 = s.length % 3 := by
        simp only [List.length_cons]
        omega
      rw [encode_cons, decodeGroups_cons, digitValue_digit (by omega), digitValue_digit (by omega),
        digitValue_digit (by omega), digitValue_digit (by omega), ih, hlength]
      exact congrArg some (List.cons_eq_cons.mpr ⟨byte_eq a (by omega),
        List.cons_eq_cons.mpr ⟨byte_eq b (by omega), List.cons_eq_cons.mpr ⟨byte_eq c (by omega), rfl⟩⟩⟩)

/-! ### Decoding -/

/-- Padding signs in front of the end are refused. -/
def decode (s : Bytes) : Option Bytes :=
  if chr '=' ∈ s.take (s.length - padding s) then none
  else (decodeGroups s).map fun t => t.take (t.length - padding s)

/-- What is neither a digit nor a padding sign is ignored. -/
def decodeText (s : Bytes) : Option Bytes := decode (s.filter isDigitOrPad)

theorem exists_digits_encode (s : Bytes) :
    ∃ digits, encode s = digits ++ List.replicate ((3 - s.length % 3) % 3) (chr '=') ∧
      chr '=' ∉ digits := by
  induction s using groups_induction with
  | nil => exact ⟨[], rfl, List.not_mem_nil⟩
  | one a =>
      have ha := a.toNat_lt
      refine ⟨[digit (a.toNat / 4), digit (a.toNat % 4 * 16)], rfl, ?_⟩
      simp [(digit_ne_pad (by omega : a.toNat / 4 < 64)).symm,
        (digit_ne_pad (by omega : a.toNat % 4 * 16 < 64)).symm]
  | two a b =>
      have ha := a.toNat_lt
      have hb := b.toNat_lt
      refine ⟨[digit (a.toNat / 4), digit (a.toNat % 4 * 16 + b.toNat / 16),
        digit (b.toNat % 16 * 4)], rfl, ?_⟩
      simp [(digit_ne_pad (by omega : a.toNat / 4 < 64)).symm,
        (digit_ne_pad (by omega : a.toNat % 4 * 16 + b.toNat / 16 < 64)).symm,
        (digit_ne_pad (by omega : b.toNat % 16 * 4 < 64)).symm]
  | cons a b c s ih =>
      have ha := a.toNat_lt
      have hb := b.toNat_lt
      have hc := c.toNat_lt
      obtain ⟨digits, hdigits, hno⟩ := ih
      have hlength : (a :: b :: c :: s).length % 3 = s.length % 3 := by
        simp only [List.length_cons]
        omega
      refine ⟨digit (a.toNat / 4) :: digit (a.toNat % 4 * 16 + b.toNat / 16) ::
        digit (b.toNat % 16 * 4 + c.toNat / 64) :: digit (c.toNat % 64) :: digits, ?_, ?_⟩
      · rw [encode_cons, hdigits, hlength]
        rfl
      · simp [(digit_ne_pad (by omega : a.toNat / 4 < 64)).symm,
          (digit_ne_pad (by omega : a.toNat % 4 * 16 + b.toNat / 16 < 64)).symm,
          (digit_ne_pad (by omega : b.toNat % 16 * 4 + c.toNat / 64 < 64)).symm,
          (digit_ne_pad (by omega : c.toNat % 64 < 64)).symm, hno]

theorem decode_encode (s : Bytes) : decode (encode s) = some s := by
  obtain ⟨digits, hdigits, hno⟩ := exists_digits_encode s
  have htake : (encode s).take ((encode s).length - padding (encode s)) = digits := by
    rw [padding_encode, hdigits, List.length_append, List.length_replicate, Nat.add_sub_cancel,
      List.take_left]
  rw [decode, htake, if_neg hno, decodeGroups_encode, Option.map_some, padding_encode,
    List.length_append, List.length_replicate, Nat.add_sub_cancel, List.take_left]

theorem decodeText_append (s t : Bytes) (h : ∀ c ∈ t, isDigitOrPad c = false) :
    decodeText (s ++ t) = decodeText s := by
  have ht : t.filter isDigitOrPad = [] := List.filter_eq_nil_iff.mpr fun c hc => by simp [h c hc]
  rw [decodeText, List.filter_append, ht, List.append_nil, decodeText]

theorem decodeText_encode (s : Bytes) : decodeText (encode s) = some s := by
  rw [decodeText, List.filter_eq_self.mpr fun c hc => isDigitOrPad_of_mem_encode hc, decode_encode]

example : decodeText (str "QUI=\r\n") = some (str "AB") := by decide +kernel

end Base64
