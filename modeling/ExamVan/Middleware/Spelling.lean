import ExamVan.Lib.JsonNames
import ExamVan.Middleware.Tokens

/-!
# How a string is read as a token

A string read as a token loses the backslash of every escape with the byte behind it. What is left
is compared in upper case with one space between two words.
-/

namespace ExamVan.Middleware

open ByteString ExamToken JsonText

/-- What `parse_set_tokens` makes of a string. -/
def dropEscapes : List Piece → Bytes
  | [] => []
  | .plain c _ :: s => c :: dropEscapes s
  | .short _ _ :: s => dropEscapes s
  | .unicode h₁ h₂ h₃ h₄ _ :: s => h₁ :: h₂ :: h₃ :: h₄ :: dropEscapes s

def isPlain : Piece → Bool
  | .plain _ _ => true
  | _ => false

/-- A byte that stands for itself, or `\f`, `\n`, `\r` or `\t`. -/
def isPlainOrBlank : Piece → Bool
  | .plain _ _ => true
  | .short c _ => isSpace (shortEscape c)
  | .unicode _ _ _ _ _ => false

/-- Two words have nothing but escapes between them. The flags: a word ends here, escapes aside, and
an escape has followed it. -/
def joined : Bool → Bool → List Piece → Bool
  | _, _, [] => false
  | word, escaped, .plain c _ :: s =>
      if isSpace c then joined false false s else word && escaped || joined true false s
  | word, _, _ :: s => joined word true s

/-! ### Strings as tokens -/

section

variable {s : List Piece} {t : Bytes} {c : UInt8}

theorem readQuoted_plain (hquote : c ≠ chr '"') (hback : c ≠ chr '\\') (t : Bytes) :
    readQuoted (c :: t) = (c :: (readQuoted t).1, (readQuoted t).2) := by
  cases t with
  | nil => simp [readQuoted, hquote, hback]
  | cons d t => simp [readQuoted, hquote, hback]

theorem readQuoted_escape (c : UInt8) (t : Bytes) : readQuoted (chr '\\' :: c :: t) = readQuoted t := by
  simp [readQuoted]

theorem readQuoted_raw (s : List Piece) (t : Bytes) :
    readQuoted (raw s ++ chr '"' :: t) = (dropEscapes s, t) := by
  induction s with
  | nil => cases t <;> simp [readQuoted, dropEscapes, chr]
  | cons p s ih =>
      cases p with
      | plain c hc =>
          rw [raw_cons, Piece.text, List.singleton_append, List.cons_append,
            readQuoted_plain hc.2.1 hc.2.2, ih]
          rfl
      | short c hc =>
          simp only [raw_cons, Piece.text, List.cons_append, List.nil_append]
          rw [readQuoted_escape, ih]
          rfl
      | unicode h₁ h₂ h₃ h₄ hhex =>
          have hplain : ∀ c u, JsonText.isHexDigit c = true →
              readQuoted (c :: u) = (c :: (readQuoted u).1, (readQuoted u).2) := fun c u hc =>
            readQuoted_plain (ne_of_isHexDigit hc).1 (ne_of_isHexDigit hc).2 u
          simp only [raw_cons, Piece.text, List.cons_append, List.nil_append]
          rw [readQuoted_escape, hplain _ _ hhex.1, hplain _ _ hhex.2.1, hplain _ _ hhex.2.2.1,
            hplain _ _ hhex.2.2.2, ih]
          rfl

/-! ### What is compared -/

theorem mem_normFrom {started space : Bool} {b : UInt8} (h : b ∈ normFrom started space t) :
    b = chr ' ' ∨ ∃ c ∈ t, b = toUpper c := by
  induction t generalizing started space with
  | nil => cases h
  | cons c t ih =>
      have hrest : ∀ {started space : Bool}, b ∈ normFrom started space t →
          b = chr ' ' ∨ ∃ d ∈ c :: t, b = toUpper d := fun hmem =>
        (ih hmem).imp_right fun ⟨d, hd, heq⟩ => ⟨d, List.mem_cons_of_mem _ hd, heq⟩
      unfold normFrom at h
      split at h
      · exact hrest h
      · split at h
        · rcases List.mem_cons.mp h with rfl | h
          · exact .inl rfl
          · rcases List.mem_cons.mp h with rfl | h
            · exact .inr ⟨c, List.mem_cons_self, rfl⟩
            · exact hrest h
        · rcases List.mem_cons.mp h with rfl | h
          · exact .inr ⟨c, List.mem_cons_self, rfl⟩
          · exact hrest h

theorem toUpper_mem_normFrom {started space : Bool} (h : c ∈ t) (hc : isSpace c = false) :
    toUpper c ∈ normFrom started space t := by
  induction t generalizing started space with
  | nil => cases h
  | cons d t ih =>
      unfold normFrom
      rcases List.mem_cons.mp h with rfl | h
      · rw [if_neg (by simp [hc])]
        split <;> simp
      · split
        · exact ih h
        · split <;> simp [ih h]

theorem normFrom_false (space : Bool) (t : Bytes) : normFrom false space t = normFrom false false t := by
  induction t with
  | nil => rfl
  | cons c t ih => simp [normFrom]

/-! ### What is counted -/

theorem isSpace_toUpper (c : UInt8) : isSpace (toUpper c) = isSpace c :=
  forall_byte (p := fun c => isSpace (toUpper c) = isSpace c) (by decide) c

theorem isHexDigit_toUpper (c : UInt8) : JsonText.isHexDigit (toUpper c) = JsonText.isHexDigit c :=
  forall_byte (p := fun c => JsonText.isHexDigit (toUpper c) = JsonText.isHexDigit c)
    (by decide) c

theorem isSpace_of_isHexDigit (h : JsonText.isHexDigit c = true) : isSpace c = false :=
  forall_byte (p := fun c => JsonText.isHexDigit c = true → isSpace c = false) (by decide) c h

/-- A byte that is no space. -/
def isInk (c : UInt8) : Bool := !isSpace c

/-- A byte that is neither a space nor a hexadecimal digit. -/
def isMark (c : UInt8) : Bool := !isSpace c && !JsonText.isHexDigit c

theorem countP_normFrom {p : UInt8 → Bool} (hspace : ∀ c, isSpace c = true → p c = false)
    (hupper : ∀ c, p (toUpper c) = p c) (started space : Bool) (t : Bytes) :
    (normFrom started space t).countP p = t.countP p := by
  have hblank : p (chr ' ') = false := hspace _ (by decide)
  induction t generalizing started space with
  | nil => rfl
  | cons c t ih =>
      unfold normFrom
      split
      next hc => rw [ih, List.countP_cons_of_neg (by simp [hspace c hc])]
      next hc =>
        split
        · rw [List.countP_cons_of_neg (by simp [hblank]), List.countP_cons, List.countP_cons, ih,
            hupper]
        · rw [List.countP_cons, List.countP_cons, ih, hupper]

theorem countP_ink_normAns (t : Bytes) : (normAns t).countP isInk = t.countP isInk :=
  countP_normFrom (fun c hc => by simp [isInk, hc]) (fun c => by simp [isInk, isSpace_toUpper]) _ _ t

theorem countP_mark_normAns (t : Bytes) : (normAns t).countP isMark = t.countP isMark :=
  countP_normFrom (fun c hc => by simp [isMark, hc])
    (fun c => by simp [isMark, isSpace_toUpper, isHexDigit_toUpper]) _ _ t

def isUnicode : Piece → Bool
  | .unicode _ _ _ _ _ => true
  | _ => false

/-- An escape of a character that is no blank, by one letter. -/
def isShortInk : Piece → Bool
  | .short c _ => isInk (shortEscape c)
  | _ => false

theorem hexDigitValue_lt (h : JsonText.isHexDigit c = true) : hexDigitValue c < 16 :=
  forall_byte (p := fun c => JsonText.isHexDigit c = true → hexDigitValue c < 16)
    (by decide) c h

theorem codeUnit_lt {h₁ h₂ h₃ h₄ : UInt8} (h : JsonText.isHexDigit h₁ ∧ JsonText.isHexDigit h₂ ∧
    JsonText.isHexDigit h₃ ∧ JsonText.isHexDigit h₄) : JsonText.codeUnit h₁ h₂ h₃ h₄ < 0x10000 := by
  have hfirst := hexDigitValue_lt h.1
  have hsecond := hexDigitValue_lt h.2.1
  have hthird := hexDigitValue_lt h.2.2.1
  have hfourth := hexDigitValue_lt h.2.2.2
  unfold JsonText.codeUnit
  omega

theorem length_utf8_le_three {n : Nat} (h : n < 0x10000) : (utf8 n).length ≤ 3 := by
  unfold utf8
  split_ifs <;> simp

theorem isMark_shortEscape (hc : c ∈ str "\"\\/bfnrt") :
    isMark (shortEscape c) = isInk (shortEscape c) := by
  have hall : ∀ c ∈ str "\"\\/bfnrt", isMark (shortEscape c) = isInk (shortEscape c) := by decide
  exact hall c hc

theorem marks_decodeFrom (high : Option Nat) (s : List Piece) :
    (dropEscapes s).countP isMark + s.countP isShortInk ≤ (decodeFrom high s).countP isMark := by
  induction s generalizing high with
  | nil => simp [dropEscapes]
  | cons p s ih =>
      have hnone := ih none
      cases p with
      | plain c hc =>
          simp only [dropEscapes, decodeFrom, isShortInk, List.countP_cons, List.countP_append]
          simp only [Bool.false_eq_true, if_false]
          omega
      | short c hc =>
          have hshort : isShortInk (.short c hc) = isMark (shortEscape c) :=
            (isMark_shortEscape hc).symm
          simp only [dropEscapes, decodeFrom, List.countP_cons, List.countP_append, hshort]
          omega
      | unicode h₁ h₂ h₃ h₄ hhex =>
          have hno : ∀ c, JsonText.isHexDigit c = true → isMark c = false := fun c hc => by
            simp [isMark, hc]
          have hlater := ih (some (JsonText.codeUnit h₁ h₂ h₃ h₄))
          simp only [dropEscapes, isShortInk, List.countP_cons, hno _ hhex.1, hno _ hhex.2.1,
            hno _ hhex.2.2.1, hno _ hhex.2.2.2, Bool.false_eq_true, if_false, Nat.add_zero]
          cases high with
          | none =>
              simp only [decodeFrom]
              split_ifs
              · exact hlater
              · rw [List.countP_append]
                omega
          | some u =>
              simp only [decodeFrom]
              split_ifs <;> simp only [List.countP_append] <;> omega

theorem inks_decodeFrom (high : Option Nat) (hhigh : ∀ u ∈ high, u < 0x10000) (s : List Piece) :
    (decodeFrom high s).countP isInk + s.countP isUnicode ≤
      (dropEscapes s).countP isInk + s.countP isShortInk + if high.isSome then 3 else 0 := by
  have hutf8 : ∀ n < 0x10000, (utf8 n).countP isInk ≤ 3 := fun n hn =>
    List.countP_le_length.trans (length_utf8_le_three hn)
  induction s generalizing high with
  | nil =>
      cases high with
      | none => simp [decodeFrom]
      | some u => simpa [decodeFrom, dropEscapes] using hutf8 u (hhigh u rfl)
  | cons p s ih =>
      have hnone := ih none (by simp)
      have hpending : ((high.map utf8).getD []).countP isInk ≤ if high.isSome then 3 else 0 := by
        cases high with
        | none => simp
        | some u => exact hutf8 u (hhigh u rfl)
      simp only [Option.isSome_none, Bool.false_eq_true, if_false, Nat.add_zero] at hnone
      cases p with
      | plain c hc =>
          simp only [dropEscapes, decodeFrom, isShortInk, isUnicode, List.countP_cons,
            List.countP_append]
          simp only [Bool.false_eq_true, if_false]
          omega
      | short c hc =>
          have hshort : isShortInk (.short c hc) = isInk (shortEscape c) := rfl
          simp only [dropEscapes, decodeFrom, isUnicode, List.countP_cons, List.countP_append, hshort]
          simp only [Bool.false_eq_true, if_false]
          omega
      | unicode h₁ h₂ h₃ h₄ hhex =>
          have hunit := codeUnit_lt hhex
          have hyes : ∀ c, JsonText.isHexDigit c = true → isInk c = true := fun c hc => by
            simp [isInk, isSpace_of_isHexDigit hc]
          have hlater := ih (some (JsonText.codeUnit h₁ h₂ h₃ h₄)) fun u hu => by
            cases hu
            exact hunit
          have hfirst := hutf8 _ hunit
          simp only [Option.isSome_some, if_true] at hlater
          simp only [dropEscapes, isShortInk, isUnicode, List.countP_cons, hyes _ hhex.1,
            hyes _ hhex.2.1, hyes _ hhex.2.2.1, hyes _ hhex.2.2.2, Bool.false_eq_true, if_false,
            if_true, Nat.add_zero]
          cases high with
          | none =>
              simp only [decodeFrom, Option.isSome_none, Bool.false_eq_true, if_false]
              split_ifs
              · omega
              · rw [List.countP_append]
                omega
          | some u =>
              have hprevious := hutf8 u (hhigh u rfl)
              have hpair : (utf8 (0x10000 + (u - 0xD800) * 0x400 +
                  (JsonText.codeUnit h₁ h₂ h₃ h₄ - 0xDC00))).countP isInk ≤ 4 :=
                List.countP_le_length.trans (length_utf8_le _)
              simp only [decodeFrom, Option.isSome_some, if_true]
              split_ifs <;> simp only [List.countP_append] <;> omega

/-! ### Escapes that do no harm -/

theorem isPlainOrBlank_of_counts (hshort : s.countP isShortInk = 0) (hunicode : s.countP isUnicode = 0)
    {p : Piece} (hp : p ∈ s) : isPlainOrBlank p = true := by
  have hnoShort := List.countP_eq_zero.mp hshort p hp
  have hnoUnicode := List.countP_eq_zero.mp hunicode p hp
  cases p with
  | plain c hc => rfl
  | short c hc => simpa [isShortInk, isInk, isPlainOrBlank] using hnoShort
  | unicode h₁ h₂ h₃ h₄ hhex => exact absurd rfl hnoUnicode

theorem joined_false (escaped : Bool) (s : List Piece) :
    joined false escaped s = joined false false s := by
  induction s generalizing escaped with
  | nil => rfl
  | cons p s ih =>
      cases p with
      | plain c hc => rfl
      | short c hc => rfl
      | unicode h₁ h₂ h₃ h₄ hhex => rfl

theorem toUpper_ne_space (hc : isSpace c = false) : toUpper c ≠ chr ' ' := by
  intro h
  have hspace := isSpace_toUpper c
  rw [h, hc] at hspace
  exact absurd hspace (by decide)

/-- The two texts are read side by side: a blank of the one that loses its escapes is a blank of the
other. -/
theorem normFrom_eq_iff (hs : ∀ p ∈ s, isPlainOrBlank p = true) (started a b : Bool)
    (hab : a = true → b = true) :
    normFrom started a (dropEscapes s) = normFrom started b (decodeFrom none s) ↔
      joined (started && !a) b s = false := by
  induction s generalizing started a b with
  | nil => exact iff_of_true rfl rfl
  | cons p s ih =>
      have hrest : ∀ p ∈ s, isPlainOrBlank p = true := fun p hp => hs p (List.mem_cons_of_mem _ hp)
      cases p with
      | plain c hc =>
          simp only [dropEscapes, decodeFrom, Option.map_none, Option.getD_none, List.nil_append]
          cases hspace : isSpace c with
          | true =>
              simp only [normFrom, joined, hspace, if_true]
              rw [ih hrest _ _ _ fun _ => rfl, Bool.not_true, Bool.and_false, joined_false]
          | false =>
              have hword := ih hrest true false false id
              simp only [Bool.true_and, Bool.not_false] at hword
              simp only [normFrom, joined, hspace, Bool.false_eq_true, if_false]
              cases started with
              | false => simpa using hword
              | true =>
                  cases a with
                  | true => simpa [hab rfl] using hword
                  | false =>
                      cases b with
                      | true => simp [toUpper_ne_space hspace]
                      | false => simpa using hword
      | short c hc =>
          have hblank : isSpace (shortEscape c) = true := hs _ List.mem_cons_self
          simp only [dropEscapes, decodeFrom, Option.map_none, Option.getD_none, List.nil_append,
            normFrom, joined, hblank, if_true]
          exact ih hrest _ _ _ fun _ => rfl
      | unicode h₁ h₂ h₃ h₄ hhex => exact absurd (hs _ List.mem_cons_self) (by simp [isPlainOrBlank])

/-- A string is read as what it denotes if it has no escapes but for blanks, and those separate no
words on their own. -/
theorem normAns_dropEscapes_iff (s : List Piece) :
    normAns (dropEscapes s) = normAns (decode s) ↔
      (∀ p ∈ s, isPlainOrBlank p = true) ∧ joined false false s = false := by
  constructor
  · intro h
    have hmarks := congrArg (List.countP isMark) h
    have hinks := congrArg (List.countP isInk) h
    rw [countP_mark_normAns, countP_mark_normAns] at hmarks
    rw [countP_ink_normAns, countP_ink_normAns] at hinks
    have hmore := marks_decodeFrom none s
    have hfewer := inks_decodeFrom none (by simp) s
    unfold decode at hmarks hinks
    simp only [Option.isSome_none, Bool.false_eq_true, if_false, Nat.add_zero] at hfewer
    have htame : ∀ p ∈ s, isPlainOrBlank p = true := fun p hp =>
      isPlainOrBlank_of_counts (by omega) (by omega) hp
    exact ⟨htame, (normFrom_eq_iff htame false false false id).mp h⟩
  · rintro ⟨htame, hjoined⟩
    exact (normFrom_eq_iff htame false false false id).mpr hjoined

theorem inks_raw (s : List Piece) : (raw s).countP isInk =
    (dropEscapes s).countP isInk + 2 * s.countP (fun p => !isPlain p) := by
  induction s with
  | nil => rfl
  | cons p s ih =>
      have hback : isInk (chr '\\') = true := by decide
      cases p with
      | plain c hc =>
          simp only [raw_cons, Piece.text, dropEscapes, List.singleton_append, List.countP_cons, ih,
            isPlain, Bool.not_true, Bool.false_eq_true, if_false]
          omega
      | short c hc =>
          have hshort : isInk c = true := by
            have hall : ∀ c ∈ str "\"\\/bfnrt", isInk c = true := by decide
            exact hall c hc
          simp only [raw_cons, Piece.text, dropEscapes, List.cons_append, List.nil_append,
            List.countP_cons, ih, isPlain, hback, hshort, Bool.not_false, if_true]
          omega
      | unicode h₁ h₂ h₃ h₄ hhex =>
          have hu : isInk (chr 'u') = true := by decide
          simp only [raw_cons, Piece.text, dropEscapes, List.cons_append, List.nil_append,
            List.countP_cons, ih, isPlain, hback, hu, Bool.not_false, if_true]
          omega

theorem raw_eq_decode (h : ∀ p ∈ s, isPlain p = true) : raw s = decode s := by
  induction s with
  | nil => rfl
  | cons p s ih =>
      have hrest := ih fun p hp => h p (List.mem_cons_of_mem _ hp)
      cases p with
      | plain c hc =>
          rw [raw_cons, hrest]
          rfl
      | short c hc => exact absurd (h _ List.mem_cons_self) (by simp [isPlain])
      | unicode h₁ h₂ h₃ h₄ hhex => exact absurd (h _ List.mem_cons_self) (by simp [isPlain])

/-- A string with its escapes left as they are is read as what it denotes only if it has none. -/
theorem normAns_raw_iff (s : List Piece) :
    normAns (raw s) = normAns (decode s) ↔ ∀ p ∈ s, isPlain p = true := by
  constructor
  · intro h
    have hinks := congrArg (List.countP isInk) h
    rw [countP_ink_normAns, countP_ink_normAns, inks_raw] at hinks
    have hfewer := inks_decodeFrom none (by simp) s
    have hshort : s.countP isShortInk ≤ s.countP fun p => !isPlain p :=
      List.countP_mono_left fun p _ hp => by
        cases p with
        | plain c hc => cases hp
        | short c hc => rfl
        | unicode h₁ h₂ h₃ h₄ hhex => rfl
    unfold decode at hinks
    simp only [Option.isSome_none, Bool.false_eq_true, if_false, Nat.add_zero] at hfewer
    have hzero : s.countP (fun p => !isPlain p) = 0 := by omega
    exact fun p hp => by simpa using List.countP_eq_zero.mp hzero p hp
  · exact fun h => by rw [raw_eq_decode h]

end

end ExamVan.Middleware
