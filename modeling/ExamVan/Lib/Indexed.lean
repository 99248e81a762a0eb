import Mathlib.Logic.Basic

/-!
# Reading by index

A computation that reads a text byte by byte, with the indices it uses in the order of their use. A
text has a terminator at the index of its length, and nothing behind it: what such an index reads is
not said by the text.
-/

/-- A result, and the indices that have been used for it. -/
@[ext]
structure Indexed (α : Type) where
  value : α
  indices : List Nat

namespace Indexed

variable {α β : Type} {x : Indexed α} {f : α → Indexed β} {n : Nat}

instance : Monad Indexed where
  pure a := ⟨a, []⟩
  bind x f := ⟨(f x.value).value, x.indices ++ (f x.value).indices⟩

@[simp]
theorem value_pure (a : α) : (pure a : Indexed α).value = a := rfl

@[simp]
theorem value_bind (x : Indexed α) (f : α → Indexed β) : (x >>= f).value = (f x.value).value := rfl

@[simp]
theorem value_ite {p : Prop} [Decidable p] (x y : Indexed α) :
    (if p then x else y).value = if p then x.value else y.value := apply_ite value p x y

/-- No index is greater than the one of the terminator. -/
def Within (n : Nat) (x : Indexed α) : Prop := ∀ i ∈ x.indices, i ≤ n

@[simp]
theorem within_pure (a : α) : (pure a : Indexed α).Within n := by
  intro i hi
  cases hi

@[simp]
theorem within_bind : (x >>= f).Within n ↔ x.Within n ∧ (f x.value).Within n :=
  List.forall_mem_append

theorem within_ite {p : Prop} [Decidable p] {y : Indexed α} :
    (if p then x else y).Within n ↔ (p → x.Within n) ∧ (¬ p → y.Within n) := by
  by_cases h : p
  · rw [if_pos h]
    exact ⟨fun hx => ⟨fun _ => hx, fun hno => absurd h hno⟩, fun hboth => hboth.1 h⟩
  · rw [if_neg h]
    exact ⟨fun hy => ⟨fun hyes => absurd hyes h, fun _ => hy⟩, fun hboth => hboth.2 h⟩

section

variable {γ : Type} [Inhabited γ]

/-- `s[i]` -/
def read (s : List γ) (i : Nat) : Indexed γ := ⟨s[i]?.getD default, [i]⟩

@[simp]
theorem value_read (s : List γ) (i : Nat) : (read s i).value = s[i]?.getD default := rfl

@[simp]
theorem within_read {s : List γ} {i : Nat} : (read s i).Within n ↔ i ≤ n := List.forall_mem_singleton

end

end Indexed
