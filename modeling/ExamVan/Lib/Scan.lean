import Mathlib.Data.List.Basic

/-!
# Loops that take a text apart

A round of such a loop finds the end of the text, or an item and the rest. The loop may take any
number of rounds, and it may not end: then there is no result for any number of rounds. If each round
shortens the text or leaves one on which the loop does not end, the length of the text decides.
-/

variable {α β : Type*}

/-- The items of at most so many rounds; `none` if the loop is not at its end by then. -/
def scan (round : List α → Option (β × List α)) : Nat → List α → Option (List β)
  | 0, _ => none
  | rounds + 1, s =>
      match round s with
      | none => some []
      | some (item, rest) => (scan round rounds rest).map (item :: ·)

namespace Scan

variable {round : List α → Option (β × List α)} {s rest : List α} {item : β} {items : List β}
  {n m : Nat}

theorem of_none (h : round s = none) : scan round (n + 1) s = some [] := by
  simp only [scan, h]

theorem of_some (h : round s = some (item, rest)) :
    scan round (n + 1) s = (scan round n rest).map (item :: ·) := by
  simp only [scan, h]

/-- More rounds give the same items. -/
theorem mono (h : scan round n s = some items) (hle : n ≤ m) : scan round m s = some items := by
  induction n generalizing s items m with
  | zero => cases h
  | succ n ih =>
      obtain ⟨m, rfl⟩ := Nat.exists_eq_add_of_le' (Nat.le_of_add_left_le hle)
      cases hround : round s with
      | none =>
          rw [of_none hround] at h ⊢
          exact h
      | some found =>
          obtain ⟨item, rest⟩ := found
          rw [of_some hround] at h ⊢
          obtain ⟨tail, htail, rfl⟩ := Option.map_eq_some_iff.mp h
          rw [ih htail (Nat.le_of_succ_le_succ hle)]
          rfl

/-- A round that leaves its text as it is goes on for ever. -/
theorem eq_none_of_loop (h : round s = some (item, s)) (n : Nat) : scan round n s = none := by
  induction n with
  | zero => rfl
  | succ n ih => rw [of_some h, ih, Option.map_none]

/-- If every round shortens the text or does not come to an end, the length is enough rounds for
every loop that ends. -/
theorem eq_some_of_length
    (hround : ∀ {s item rest}, round s = some (item, rest) →
      rest.length < s.length ∨ ∀ n, scan round n rest = none)
    (h : scan round n s = some items) : scan round (s.length + 1) s = some items := by
  induction n generalizing s items with
  | zero => cases h
  | succ n ih =>
      cases hfound : round s with
      | none =>
          rw [of_none hfound] at h ⊢
          exact h
      | some found =>
          obtain ⟨item, rest⟩ := found
          rw [of_some hfound] at h ⊢
          obtain ⟨tail, htail, rfl⟩ := Option.map_eq_some_iff.mp h
          rcases hround hfound with hshorter | hnever
          · rw [mono (ih htail) hshorter]
            rfl
          · rw [hnever n] at htail
            cases htail

/-- If every round shortens the text, the loop ends. -/
theorem isSome_of_length (hround : ∀ {s item rest}, round s = some (item, rest) →
    rest.length < s.length) (h : s.length < n) : (scan round n s).isSome = true := by
  induction n generalizing s with
  | zero => exact absurd h (Nat.not_lt_zero _)
  | succ n ih =>
      cases hfound : round s with
      | none => rw [of_none hfound, Option.isSome_some]
      | some found =>
          obtain ⟨item, rest⟩ := found
          rw [of_some hfound, Option.isSome_map]
          exact ih (Nat.lt_of_lt_of_le (hround hfound) (Nat.le_of_lt_succ h))

end Scan
