import Mathlib.Data.List.Basic
import Mathlib.Data.List.Forall2

/-!
# Tables of path patterns

A pattern is a list of segments, each a literal or a parameter that takes any segment. A table is
searched from the front, so an early row hides the later rows from the paths that both match. Those
paths have a pattern of their own, the meet of the two.
-/

namespace Patterns

variable {α : Type*}

/-- What a segment of a pattern takes: its literal, or anything. -/
def Fits (p : Option α) (a : α) : Prop := ∀ b ∈ p, b = a

@[simp] theorem fits_none (a : α) : Fits none a := by
  intro b hb
  cases hb

@[simp] theorem fits_some {b a : α} : Fits (some b) a ↔ b = a := by
  simp [Fits]

instance [DecidableEq α] (p : Option α) (a : α) : Decidable (Fits p a) :=
  match p with
  | none => .isTrue (fits_none a)
  | some b => decidable_of_iff (b = a) fits_some.symm

/-- A path matches a pattern segment by segment. -/
def Matches : List (Option α) → List α → Prop := List.Forall₂ Fits

instance [DecidableEq α] (p : List (Option α)) (path : List α) : Decidable (Matches p path) :=
  inferInstanceAs (Decidable (List.Forall₂ Fits p path))

@[simp] theorem matches_nil {path : List α} : Matches [] path ↔ path = [] :=
  List.forall₂_nil_left_iff

@[simp] theorem matches_cons {p : Option α} {ps : List (Option α)} {a : α} {path : List α} :
    Matches (p :: ps) (a :: path) ↔ Fits p a ∧ Matches ps path :=
  List.forall₂_cons

theorem not_matches_cons_nil {p : Option α} {ps : List (Option α)} : ¬ Matches (p :: ps) [] := by
  intro h
  cases h

/-- A pattern without parameters is matched by its own text alone. -/
theorem matches_map_some {lits path : List α} : Matches (lits.map some) path ↔ path = lits := by
  induction lits generalizing path with
  | nil => simp
  | cons a lits ih =>
      cases path with
      | nil => simp [not_matches_cons_nil]
      | cons b path => simp [ih, eq_comm]

/-- A pattern whose paths may start with the literals matches them with its own first segments. -/
theorem matches_take {p : List (Option α)} {path lits : List α} (h : Matches p path)
    (hpath : lits <+: path) : Matches (p.take lits.length) lits := by
  have htake : path.take lits.length = lits := List.prefix_iff_eq_take.mp hpath |>.symm
  have := List.forall₂_take lits.length h
  rwa [htake] at this

section Meet

variable [DecidableEq α]

def meetSegment : Option α → Option α → Option (Option α)
  | none, q => some q
  | some a, none => some (some a)
  | some a, some b => if a = b then some (some a) else none

/-- The pattern of the paths that match both, if there are any. -/
def meet : List (Option α) → List (Option α) → Option (List (Option α))
  | [], [] => some []
  | p :: ps, q :: qs => (meetSegment p q).bind fun s => (meet ps qs).map (s :: ·)
  | _, _ => none

theorem fits_meetSegment {p q : Option α} {a : α} :
    Fits p a ∧ Fits q a ↔ ∃ s ∈ meetSegment p q, Fits s a := by
  cases p with
  | none => simp [meetSegment]
  | some b =>
      cases q with
      | none => simp [meetSegment]
      | some c =>
          by_cases hbc : b = c
          · simp [meetSegment, hbc]
          · have hnot : ¬ (b = a ∧ c = a) := fun h => hbc (h.1.trans h.2.symm)
            simp [meetSegment, hbc, hnot]

theorem matches_meet {p q : List (Option α)} {path : List α} :
    Matches p path ∧ Matches q path ↔ ∃ s ∈ meet p q, Matches s path := by
  induction p generalizing q path with
  | nil =>
      cases q with
      | nil => simp [meet]
      | cons q qs =>
          simp only [meet, matches_nil, Option.mem_def, reduceCtorEq, false_and, exists_false,
            iff_false, not_and]
          rintro rfl
          exact not_matches_cons_nil
  | cons p ps ih =>
      cases q with
      | nil =>
          simp only [meet, matches_nil, Option.mem_def, reduceCtorEq, false_and, exists_false,
            iff_false, not_and]
          rintro h rfl
          exact not_matches_cons_nil h
      | cons q qs =>
          cases path with
          | nil =>
              constructor
              · rintro ⟨h, -⟩
                exact absurd h not_matches_cons_nil
              · rintro ⟨s, hs, hmatch⟩
                rw [List.forall₂_nil_right_iff.mp hmatch] at hs
                cases hseg : meetSegment p q <;> simp [meet, hseg] at hs
          | cons a path =>
              calc Matches (p :: ps) (a :: path) ∧ Matches (q :: qs) (a :: path)
                  ↔ (Fits p a ∧ Fits q a) ∧ (Matches ps path ∧ Matches qs path) := by
                    simp only [matches_cons]
                    exact and_and_and_comm
                _ ↔ (∃ s ∈ meetSegment p q, Fits s a) ∧ ∃ t ∈ meet ps qs, Matches t path := by
                    rw [fits_meetSegment, ih]
                _ ↔ ∃ s ∈ meet (p :: ps) (q :: qs), Matches s (a :: path) := by
                    rw [meet]
                    cases meetSegment p q <;> simp [and_left_comm]

end Meet

/-! ### Search -/

/-- The first row that passes is a given passing row, or a row before it. -/
theorem find?_eq_or_rel {ρ : Type*} {R : ρ → ρ → Prop} {table : List ρ} {test : ρ → Bool} {row : ρ}
    (htable : table.Pairwise R) (hrow : row ∈ table) (htest : test row = true) :
    table.find? test = some row ∨
      ∃ first, table.find? test = some first ∧ test first = true ∧ R first row := by
  induction htable with
  | nil => cases hrow
  | @cons head rest hhead _ ih =>
      cases hcase : test head with
      | true =>
          rw [List.find?_cons_of_pos hcase]
          rcases List.mem_cons.mp hrow with rfl | hrest
          · exact .inl rfl
          · exact .inr ⟨head, rfl, hcase, hhead row hrest⟩
      | false =>
          rw [List.find?_cons_of_neg (by simp [hcase])]
          rcases List.mem_cons.mp hrow with rfl | hrest
          · simp [hcase] at htest
          · exact ih hrest

end Patterns
