import Mathlib.Data.List.DropRight
import ExamVan.Lib.Decimal
import ExamVan.Models.Exam

/-!
# Exam tokens

A token that the handlers give to an exam has eight characters of A-Z and 0-9. `examtoken::matches`
trims its input and compares without regard to case. A dynamic exam is opened by its active token
only, any other one by its permanent token as well.
-/

namespace ExamVan.ExamToken

open ByteString Models

/-- The characters of `find_first_not_of(" \t\r\n")`. -/
def isTrimmed (c : UInt8) : Bool := c = chr ' ' || c = chr '\t' || c = chr '\r' || c = chr '\n'

def trim (s : Bytes) : Bytes := (s.dropWhile isTrimmed).rdropWhile isTrimmed

/-- `toupper` in the C locale. -/
def toUpper (c : UInt8) : UInt8 := if chr 'a' ≤ c ∧ c ≤ chr 'z' then c - 32 else c

/-- `eq` of `matches`, whose reference must not be empty. -/
def sameToken (t ref : Bytes) : Bool := ref ≠ [] && t.map toUpper = ref.map toUpper

def matchesToken (e : Exam) (token : Bytes) : Bool :=
  let t := trim token
  if t = [] then false
  else if e.getTokenMode = str "dynamic" then sameToken t e.activeToken
  else if e.activeToken ≠ [] && sameToken t e.activeToken then true
  else e.token ≠ [] && sameToken t e.token

/-! ### Tokens that are given out -/

def isUpper (c : UInt8) : Bool := chr 'A' ≤ c && c ≤ chr 'Z'

def isLower (c : UInt8) : Bool := chr 'a' ≤ c && c ≤ chr 'z'

/-- `is_valid_exam_token`, where `isalnum` is that of the C locale. -/
def isValidExamToken (t : Bytes) : Bool :=
  6 ≤ t.length && t.length ≤ 32 && t.all fun c => isUpper c || isLower c || isDigit c

/-- Eight characters of A-Z and 0-9. -/
def IsToken (t : Bytes) : Prop := t.length = 8 ∧ ∀ c ∈ t, isUpper c || isDigit c

instance (t : Bytes) : Decidable (IsToken t) := inferInstanceAs (Decidable (_ ∧ _))

structure Token where
  text : Bytes
  isToken : IsToken text
  deriving DecidableEq

theorem toUpper_of_isToken {t : Bytes} (h : IsToken t) : t.map toUpper = t := by
  have hupper : ∀ c : UInt8, (isUpper c || isDigit c) = true → toUpper c = c := by
    intro c hc
    have hnot : ¬ (chr 'a' ≤ c ∧ c ≤ chr 'z') := by
      intro hlower
      simp only [isUpper, isDigit, Bool.or_eq_true, Bool.and_eq_true, decide_eq_true_eq,
        UInt8.le_iff_toNat_le] at hc hlower
      have ha : (chr 'a').toNat = 97 := rfl
      have hZ : (chr 'Z').toNat = 90 := rfl
      have h57 : (57 : UInt8).toNat = 57 := rfl
      omega
    simp [toUpper, hnot]
  exact (List.map_congr_left fun c hc => hupper c (h.2 c hc)).trans (List.map_id t)

theorem IsToken.ne_nil {t : Bytes} (h : IsToken t) : t ≠ [] := by
  rintro rfl
  simp [IsToken] at h

/-- The characters of `generate_token`. -/
def tokenChars : Bytes := str "ABCDEFGHJKLMNPQRSTUVWXYZ23456789"

/-- `generate_token(8)` on the first eight bytes of `RAND_bytes`. -/
def generateToken (buf : Fin 8 → UInt8) : Bytes :=
  List.ofFn fun i => tokenChars.getD ((buf i).toNat % 32) 0

theorem isToken_generateToken (buf : Fin 8 → UInt8) : IsToken (generateToken buf) := by
  have hchars : ∀ i < 32, (isUpper (tokenChars.getD i 0) || isDigit (tokenChars.getD i 0)) = true := by
    decide
  refine ⟨by simp [generateToken], fun c hc => ?_⟩
  obtain ⟨i, rfl⟩ := (List.mem_ofFn' _ _).mp hc
  exact hchars _ (Nat.mod_lt _ (by decide))

def drawToken (buf : Fin 8 → UInt8) : Token := ⟨generateToken buf, isToken_generateToken buf⟩

theorem not_isLower_toUpper (c : UInt8) : isLower (toUpper c) = false := by
  have ha : (chr 'a').toNat = 97 := rfl
  have hz : (chr 'z').toNat = 122 := rfl
  by_cases h : chr 'a' ≤ c ∧ c ≤ chr 'z'
  · have hsub : (c - 32).toNat = c.toNat - 32 := by
      refine UInt8.toNat_sub_of_le c 32 (UInt8.le_iff_toNat_le.mpr ?_)
      have h32 : (32 : UInt8).toNat = 32 := rfl
      have hle := UInt8.le_iff_toNat_le.mp h.1
      omega
    have hle := UInt8.le_iff_toNat_le.mp h.2
    simp only [toUpper, h, and_self, if_true, isLower, Bool.and_eq_false_iff, decide_eq_false_iff_not,
      UInt8.le_iff_toNat_le, hsub]
    omega
  · simp only [toUpper, h, if_false, isLower, Bool.and_eq_false_iff, decide_eq_false_iff_not]
    exact not_and_or.mp h

theorem isToken_map_toUpper {raw : Bytes}
    (h : isValidExamToken (raw.map toUpper) ∧ (raw.map toUpper).length = 8) :
    IsToken (raw.map toUpper) := by
  refine ⟨h.2, fun c hc => ?_⟩
  obtain ⟨b, -, rfl⟩ := List.mem_map.mp hc
  have halnum := List.all_eq_true.mp (Bool.and_eq_true_iff.mp h.1).2 _ hc
  simpa [not_isLower_toUpper] using halnum

/-- The checks of a token that an administrator has chosen. -/
def chosenToken (raw : Bytes) : Option Token :=
  if h : isValidExamToken (raw.map toUpper) ∧ (raw.map toUpper).length = 8 then
    some ⟨raw.map toUpper, isToken_map_toUpper h⟩
  else none

end ExamVan.ExamToken
