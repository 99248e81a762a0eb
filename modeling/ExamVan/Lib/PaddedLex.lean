import Mathlib.Data.List.GetD
import Mathlib.Order.PiLex

/-!
# Comparing sequences that are padded

Finite sequences of different lengths are compared at the first place where they differ, as if the
shorter one went on with a default value. The comparison is the one of a linear order.
-/

/-- The sequence, and then the default for ever. -/
def padded {α : Type*} (d : α) (l : List α) : Lex (ℕ → α) := toLex fun i => l.getD i d

theorem padded_apply {α : Type*} (d : α) (l : List α) (i : ℕ) : padded d l i = l.getD i d := rfl

section

variable {α β : Type*} [LinearOrder α] [LinearOrder β]

/-- Minus one, zero or one, as `x` is less than, equal to or greater than `y`. -/
def cmpSign (x y : α) : Int := if x < y then -1 else if y < x then 1 else 0

theorem cmpSign_of_lt {x y : α} (h : x < y) : cmpSign x y = -1 := if_pos h

theorem cmpSign_of_gt {x y : α} (h : y < x) : cmpSign x y = 1 := by
  rw [cmpSign, if_neg h.not_gt, if_pos h]

theorem cmpSign_self (x : α) : cmpSign x x = 0 := by simp [cmpSign]

theorem cmpSign_swap (x y : α) : cmpSign x y = -cmpSign y x := by
  rcases lt_trichotomy x y with h | rfl | h
  · rw [cmpSign_of_lt h, cmpSign_of_gt h]
  · rw [cmpSign_self, Int.neg_zero]
  · rw [cmpSign_of_gt h, cmpSign_of_lt h, Int.neg_neg]

theorem cmpSign_nonpos_iff {x y : α} : cmpSign x y ≤ 0 ↔ x ≤ y := by
  rcases lt_trichotomy x y with h | rfl | h
  · simp [cmpSign_of_lt h, h.le]
  · simp [cmpSign_self]
  · simp [cmpSign_of_gt h, h]

theorem cmpSign_eq_zero_iff {x y : α} : cmpSign x y = 0 ↔ x = y := by
  rcases lt_trichotomy x y with h | rfl | h
  · simp [cmpSign_of_lt h, h.ne]
  · simp [cmpSign_self]
  · simp [cmpSign_of_gt h, h.ne']

theorem cmpSign_eq_cmpSign_iff {x y : α} {x' y' : β} (h : x ≠ y) :
    cmpSign x' y' = cmpSign x y ↔ x < y ∧ x' < y' ∨ y < x ∧ y' < x' := by
  rcases lt_or_gt_of_ne h with h | h <;> rcases lt_trichotomy x' y' with h' | rfl | h'
  · simp [cmpSign_of_lt h, cmpSign_of_lt h', h, h']
  · simp [cmpSign_of_lt h, cmpSign_self, h]
  · simp [cmpSign_of_lt h, cmpSign_of_gt h', h, h.not_gt, h'.not_gt]
  · simp [cmpSign_of_gt h, cmpSign_of_lt h', h, h.not_gt, h'.not_gt]
  · simp [cmpSign_of_gt h, cmpSign_self]
  · simp [cmpSign_of_gt h, cmpSign_of_gt h', h, h']

/-- The first place where two sequences differ decides. -/
theorem cmpSign_of_first {x y : Lex (ℕ → α)} {i : ℕ} (heq : ∀ j < i, x j = y j) (hne : x i ≠ y i) :
    cmpSign x y = cmpSign (x i) (y i) := by
  rcases lt_or_gt_of_ne hne with h | h
  · have hlt : x < y := ⟨i, heq, h⟩
    rw [cmpSign_of_lt hlt, cmpSign_of_lt h]
  · have hgt : y < x := ⟨i, fun j hj => (heq j hj).symm, h⟩
    rw [cmpSign_of_gt hgt, cmpSign_of_gt h]

theorem exists_first {x y : Lex (ℕ → α)} (h : x ≠ y) : ∃ i, (∀ j < i, x j = y j) ∧ x i ≠ y i := by
  rcases lt_or_gt_of_ne h with ⟨i, heq, hlt⟩ | ⟨i, heq, hlt⟩
  · exact ⟨i, heq, hlt.ne⟩
  · exact ⟨i, fun j hj => (heq j hj).symm, hlt.ne'⟩

end
