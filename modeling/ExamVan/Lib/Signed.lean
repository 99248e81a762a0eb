import Mathlib.Algebra.Group.Int.Defs
import Mathlib.Algebra.Group.Nat.Defs
import Mathlib.Logic.Basic

/-!
# Signed arithmetic

A computation with the results of its signed operations in the order in which they are computed. A
result that has no place in the width of its type is an overflow, and the language does not say what
such an operation gives. Unsigned operations and conversions are those of the machine words.
-/

/-- A value, and the results of the signed operations that have been done for it. -/
@[ext]
structure Signed (α : Type) where
  value : α
  results : List Int

namespace Signed

variable {α β : Type} {x : Signed α} {f : α → Signed β} {width : Nat} {n : Int}

instance : Monad Signed where
  pure a := ⟨a, []⟩
  bind x f := ⟨(f x.value).value, x.results ++ (f x.value).results⟩

/-- A signed operation with its exact result. -/
def int (n : Int) : Signed Int := ⟨n, [n]⟩

@[simp]
theorem value_pure (a : α) : (pure a : Signed α).value = a := rfl

@[simp]
theorem value_bind (x : Signed α) (f : α → Signed β) : (x >>= f).value = (f x.value).value := rfl

@[simp]
theorem value_int (n : Int) : (int n).value = n := rfl

@[simp]
theorem value_ite {p : Prop} [Decidable p] (x y : Signed α) :
    (if p then x else y).value = if p then x.value else y.value := apply_ite value p x y

/-- A number of a signed type. -/
def InRange (width : Nat) (n : Int) : Prop := -2 ^ (width - 1) ≤ n ∧ n < 2 ^ (width - 1)

theorem inRange_iff : InRange 32 n ↔ -2147483648 ≤ n ∧ n < 2147483648 := Iff.rfl

/-- No operation overflows. -/
def Fits (width : Nat) (x : Signed α) : Prop := ∀ n ∈ x.results, InRange width n

@[simp]
theorem fits_pure (a : α) : (pure a : Signed α).Fits width := by
  intro n hn
  cases hn

@[simp]
theorem fits_bind : (x >>= f).Fits width ↔ x.Fits width ∧ (f x.value).Fits width :=
  List.forall_mem_append

@[simp]
theorem fits_int : (int n).Fits width ↔ InRange width n := List.forall_mem_singleton

theorem fits_ite {p : Prop} [Decidable p] {y : Signed α} :
    (if p then x else y).Fits width ↔ (p → x.Fits width) ∧ (¬ p → y.Fits width) := by
  by_cases h : p
  · rw [if_pos h]
    exact ⟨fun hx => ⟨fun _ => hx, fun hno => absurd h hno⟩, fun hboth => hboth.1 h⟩
  · rw [if_neg h]
    exact ⟨fun hy => ⟨fun hyes => absurd hyes h, fun _ => hy⟩, fun hboth => hboth.2 h⟩

/-! ### Conversions of words of 32 bits -/

theorem toNat_ofInt (hn : 0 ≤ n ∧ n < 4294967296) : (UInt32.ofInt n).toNat = n.toNat := by
  unfold UInt32.ofInt
  rw [UInt32.toNat_ofNat']
  omega

/-- A difference of words that does not wrap. -/
theorem word_sub {a b : Nat} (h : b ≤ a) (ha : a < 2 ^ 32) :
    (2 ^ 32 - b + a) % 2 ^ 32 = a - b := by
  omega

theorem toInt_toInt32 {u : UInt32} (hu : u.toNat < 2147483648) :
    u.toInt32.toInt = (u.toNat : Int) := by
  have hlow : 2 * u.toBitVec.toNat < 2 ^ 32 := by
    rw [UInt32.toNat_toBitVec]
    omega
  exact BitVec.toInt_eq_toNat_of_lt hlow

end Signed
