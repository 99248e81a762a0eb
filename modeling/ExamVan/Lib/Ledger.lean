import Mathlib.Algebra.BigOperators.Group.Finset.Basic
import Mathlib.Algebra.Order.BigOperators.Group.Finset
import Mathlib.Data.Fintype.Basic
import Mathlib.Data.List.Perm.Basic

/-!
# Counting tokens in places

Tokens lie in lists, one list for each of finitely many places. The number of copies of a token is
counted over all places together, so a step that takes tokens out of one list and puts the same
tokens into another changes no count, in whatever order it puts them there.
-/

namespace Ledger

variable {ι τ : Type*} [Fintype ι] [DecidableEq ι] [DecidableEq τ]

/-- How often a token occurs in all places together. -/
def copies (contents : ι → List τ) (t : τ) : Nat := ∑ i, (contents i).count t

omit [DecidableEq ι] in
theorem copies_pos_iff {contents : ι → List τ} {t : τ} :
    0 < copies contents t ↔ ∃ i, t ∈ contents i := by
  simp [copies, Finset.sum_pos_iff]

theorem copies_eq_add_sum_erase (contents : ι → List τ) (t : τ) (p : ι) :
    copies contents t =
      (contents p).count t + ∑ i ∈ Finset.univ.erase p, (contents i).count t :=
  (Finset.add_sum_erase _ _ (Finset.mem_univ p)).symm

/-- A token of which there is one copy lies in one place only. -/
theorem existsUnique_of_copies_eq_one {contents : ι → List τ} {t : τ}
    (h : copies contents t = 1) : ∃! p, t ∈ contents p := by
  obtain ⟨p, hp⟩ := copies_pos_iff.mp (h ▸ Nat.one_pos)
  refine ⟨p, hp, fun q hq => ?_⟩
  by_contra hne
  have hsplit := copies_eq_add_sum_erase contents t p
  have hq' : (contents q).count t ≤ ∑ i ∈ Finset.univ.erase p, (contents i).count t :=
    Finset.single_le_sum (f := fun i => (contents i).count t) (fun _ _ => Nat.zero_le _)
      (Finset.mem_erase.mpr ⟨hne, Finset.mem_univ q⟩)
  have hpcount := List.count_pos_iff.mpr hp
  have hqcount := List.count_pos_iff.mpr hq
  omega

/-- A place holds no more copies of a token than there are. -/
theorem count_le_copies (contents : ι → List τ) (t : τ) (p : ι) :
    (contents p).count t ≤ copies contents t := by
  rw [copies_eq_add_sum_erase contents t p]
  exact Nat.le_add_right _ _

/-- A token in one place, with no second copy, is in no other place. -/
theorem notMem_of_copies_le_one {contents : ι → List τ} {t : τ} {p q : ι}
    (h : copies contents t ≤ 1) (hp : t ∈ contents p) (hne : q ≠ p) : t ∉ contents q := by
  intro hq
  have hone : copies contents t = 1 :=
    le_antisymm h (copies_pos_iff.mpr ⟨p, hp⟩)
  exact hne ((existsUnique_of_copies_eq_one hone).unique hq hp)

section Steps

variable {before after : ι → List τ}

omit [DecidableEq ι] in
/-- Reordering places changes no count. -/
theorem copies_of_perm (h : ∀ i, (after i).Perm (before i)) (t : τ) :
    copies after t = copies before t :=
  Finset.sum_congr rfl fun i _ => (h i).count_eq t

/-- Tokens that move from one place to another are neither lost nor doubled. -/
theorem copies_of_transfer {p q : ι} {moved : List τ} (hne : p ≠ q)
    (hsource : (before p).Perm (moved ++ after p)) (htarget : (after q).Perm (moved ++ before q))
    (hother : ∀ i, i ≠ p → i ≠ q → after i = before i) (t : τ) :
    copies after t = copies before t := by
  have hq : q ∈ Finset.univ.erase p := Finset.mem_erase.mpr ⟨hne.symm, Finset.mem_univ q⟩
  have hrest : ∑ i ∈ (Finset.univ.erase p).erase q, (after i).count t =
      ∑ i ∈ (Finset.univ.erase p).erase q, (before i).count t := by
    refine Finset.sum_congr rfl fun i hi => ?_
    have hiq := Finset.ne_of_mem_erase hi
    have hip := Finset.ne_of_mem_erase (Finset.mem_of_mem_erase hi)
    rw [hother i hip hiq]
  rw [copies_eq_add_sum_erase after t p, copies_eq_add_sum_erase before t p,
    ← Finset.add_sum_erase _ (fun i => (after i).count t) hq,
    ← Finset.add_sum_erase _ (fun i => (before i).count t) hq, hrest, hsource.count_eq t,
    htarget.count_eq t, List.count_append, List.count_append]
  omega

/-- A new token adds its own copy and no other. -/
theorem copies_of_issue {q : ι} {new : τ} (htarget : (after q).Perm (new :: before q))
    (hother : ∀ i, i ≠ q → after i = before i) (t : τ) :
    copies after t = copies before t + if new = t then 1 else 0 := by
  have hrest : ∑ i ∈ Finset.univ.erase q, (after i).count t =
      ∑ i ∈ Finset.univ.erase q, (before i).count t :=
    Finset.sum_congr rfl fun i hi => by rw [hother i (Finset.ne_of_mem_erase hi)]
  rw [copies_eq_add_sum_erase after t q, copies_eq_add_sum_erase before t q, hrest,
    htarget.count_eq t, List.count_cons]
  simp only [beq_iff_eq]
  omega

/-- A step that issues no token: it reorders places, or moves tokens from one to another. -/
inductive Moves (before after : ι → List τ) : Prop
  | still (h : ∀ i, (after i).Perm (before i))
  | transfer (p q : ι) (moved : List τ) (hne : p ≠ q)
      (hsource : (before p).Perm (moved ++ after p)) (htarget : (after q).Perm (moved ++ before q))
      (hother : ∀ i, i ≠ p → i ≠ q → after i = before i)

theorem Moves.copies_eq (h : Moves before after) (t : τ) : copies after t = copies before t := by
  cases h with
  | still h => exact copies_of_perm h t
  | transfer p q moved hne hsource htarget hother =>
      exact copies_of_transfer hne hsource htarget hother t

end Steps

end Ledger
