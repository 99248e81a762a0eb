import Mathlib.Data.List.Nodup
import Mathlib.Logic.Function.Basic

/-!
# Tables under constraints

A row assigns a cell to each column. A schema says which cells a column admits and in which columns
no two rows may agree. A statement that would break a constraint is refused and changes nothing.
-/

namespace Sql

variable {κ ν : Type*}

structure Schema (κ ν : Type*) where
  columns : List κ
  admits : κ → ν → Bool
  unique : List κ

namespace Schema

variable (S : Schema κ ν) {rows : List (κ → ν)} {row : κ → ν}

def Admits (row : κ → ν) : Prop := ∀ c ∈ S.columns, S.admits c (row c) = true

instance : Decidable (S.Admits row) := inferInstanceAs (Decidable (∀ c ∈ S.columns, _))

structure Valid (rows : List (κ → ν)) : Prop where
  admits : ∀ row ∈ rows, S.Admits row
  unique : ∀ c ∈ S.unique, (rows.map fun row => row c).Nodup

instance [DecidableEq ν] : Decidable (S.Valid rows) :=
  decidable_of_iff ((∀ row ∈ rows, S.Admits row) ∧ ∀ c ∈ S.unique, (rows.map fun row => row c).Nodup)
    ⟨fun h => ⟨h.1, h.2⟩, fun h => ⟨h.1, h.2⟩⟩

end Schema

/-- The rows of a table, in no order that means anything. -/
structure Relation (S : Schema κ ν) where
  rows : List (κ → ν)
  valid : S.Valid rows

namespace Relation

variable {S : Schema κ ν}

def empty : Relation S := ⟨[], ⟨nofun, fun _ _ => List.nodup_nil⟩⟩

/-! ### Statements -/

/-- The table with other rows, unless they break a constraint. -/
def replace? [DecidableEq ν] (S : Schema κ ν) (rows : List (κ → ν)) : Option (Relation S) :=
  if h : S.Valid rows then some ⟨rows, h⟩ else none

def insert? [DecidableEq ν] (t : Relation S) (row : κ → ν) : Option (Relation S) :=
  replace? S (t.rows ++ [row])

def update? [DecidableEq ν] (t : Relation S) (p : (κ → ν) → Bool) (set : (κ → ν) → κ → ν) :
    Option (Relation S) :=
  replace? S (t.rows.map fun row => if p row then set row else row)

def delete (t : Relation S) (p : (κ → ν) → Bool) : Relation S where
  rows := t.rows.filter fun row => !p row
  valid :=
    { admits := fun row hrow => t.valid.admits row (List.mem_filter.mp hrow).1
      unique := fun c hc => (t.valid.unique c hc).sublist (List.filter_sublist.map _) }

/-! ### What the constraints say of a statement -/

variable {t t' : Relation S} {row : κ → ν}

theorem replace?_eq_some [DecidableEq ν] {rows : List (κ → ν)} :
    replace? S rows = some t' ↔ t'.rows = rows := by
  unfold replace?
  split
  next h =>
    constructor
    · intro heq
      cases heq
      rfl
    · intro heq
      subst heq
      rfl
  next h =>
    constructor
    · intro heq
      cases heq
    · rintro rfl
      exact absurd t'.valid h

/-- A row goes among others if it is admitted and agrees with none of them in a unique column. -/
theorem valid_middle_iff {before after : List (κ → ν)} (h : S.Valid (before ++ after)) :
    S.Valid (before ++ row :: after) ↔
      S.Admits row ∧ ∀ c ∈ S.unique, ∀ other ∈ before ++ after, other c ≠ row c := by
  have hmem : ∀ other, other ∈ before ++ row :: after ↔ other = row ∨ other ∈ before ++ after :=
    fun other => List.perm_middle.mem_iff.trans List.mem_cons
  have hnodup : ∀ c, ((before ++ row :: after).map fun r => r c).Nodup ↔
      (∀ other ∈ before ++ after, other c ≠ row c) ∧ ((before ++ after).map fun r => r c).Nodup := by
    intro c
    rw [(List.perm_middle.map _).nodup_iff, List.map_cons, List.nodup_cons]
    simp only [List.mem_map, not_exists, not_and, ne_eq]
  constructor
  · intro hvalid
    exact ⟨hvalid.admits row ((hmem row).mpr (.inl rfl)), fun c hc => ((hnodup c).mp (hvalid.unique c hc)).1⟩
  · rintro ⟨hrow, hfresh⟩
    refine ⟨fun other hother => ?_, fun c hc => (hnodup c).mpr ⟨hfresh c hc, h.unique c hc⟩⟩
    obtain rfl | hold := (hmem other).mp hother
    · exact hrow
    · exact h.admits other hold

theorem isSome_replace?_iff [DecidableEq ν] {rows : List (κ → ν)} :
    (replace? S rows).isSome = true ↔ S.Valid rows := by
  unfold replace?
  split <;> simp [*]

theorem isSome_insert?_iff [DecidableEq ν] :
    (t.insert? row).isSome = true ↔
      S.Admits row ∧ ∀ c ∈ S.unique, ∀ other ∈ t.rows, other c ≠ row c := by
  have hvalid : S.Valid (t.rows ++ []) := by
    rw [List.append_nil]
    exact t.valid
  rw [insert?, isSome_replace?_iff, valid_middle_iff hvalid, List.append_nil]

section

variable {before after : List (κ → ν)} {p : (κ → ν) → Bool} {set : (κ → ν) → κ → ν} {old : κ → ν}

/-- A statement that selects one row changes this row. -/
theorem map_update (hp : p old = true) (hothers : ∀ other ∈ before ++ after, p other = false) :
    ((before ++ old :: after).map fun row => if p row then set row else row) =
      before ++ set old :: after := by
  have hsame : ∀ rows : List (κ → ν), (∀ other ∈ rows, p other = false) →
      (rows.map fun row => if p row then set row else row) = rows := by
    intro rows hrows
    refine (List.map_congr_left fun other hother => ?_).trans (List.map_id rows)
    rw [hrows other hother]
    rfl
  rw [List.map_append, List.map_cons, if_pos hp,
    hsame before fun other h => hothers other (List.mem_append_left _ h),
    hsame after fun other h => hothers other (List.mem_append_right _ h)]

theorem isSome_update?_iff [DecidableEq ν] (hsplit : t.rows = before ++ old :: after)
    (hp : p old = true) (hothers : ∀ other ∈ before ++ after, p other = false) :
    (t.update? p set).isSome = true ↔
      S.Admits (set old) ∧ ∀ c ∈ S.unique, ∀ other ∈ before ++ after, other c ≠ set old c := by
  have hvalid : S.Valid (before ++ after) := by
    have hsub : List.Sublist (before ++ after) t.rows := by
      rw [hsplit]
      exact List.Sublist.append_left (List.sublist_cons_self old after) before
    exact ⟨fun row hrow => t.valid.admits row (hsub.subset hrow),
      fun c hc => (t.valid.unique c hc).sublist (hsub.map _)⟩
  rw [update?, isSome_replace?_iff, hsplit, map_update hp hothers, valid_middle_iff hvalid]

theorem rows_of_update? [DecidableEq ν] (hsplit : t.rows = before ++ old :: after)
    (hp : p old = true) (hothers : ∀ other ∈ before ++ after, p other = false)
    (h : t.update? p set = some t') : t'.rows = before ++ set old :: after := by
  rw [replace?_eq_some.mp h, hsplit, map_update hp hothers]

end

theorem rows_of_insert? [DecidableEq ν] (h : t.insert? row = some t') :
    t'.rows = t.rows ++ [row] := replace?_eq_some.mp h

end Relation

/-! ### Rows by column list -/

section

variable [DecidableEq κ]

/-- `SET c₁ = v₁, c₂ = v₂, …`. -/
def assign (row : κ → ν) (assignments : List (κ × ν)) : κ → ν :=
  assignments.foldl (fun row a => Function.update row a.1 a.2) row

/-- Assignments that give every column of a list the cell of another row. -/
theorem assign_map (row values : κ → ν) (columns : List κ) :
    assign row (columns.map fun c => (c, values c)) =
      fun c => if c ∈ columns then values c else row c := by
  induction columns generalizing row with
  | nil =>
      funext c
      simp [assign]
  | cons first columns ih =>
      have hstep : assign row ((first :: columns).map fun c => (c, values c)) =
          assign (Function.update row first (values first)) (columns.map fun c => (c, values c)) := rfl
      funext c
      rw [hstep, ih]
      by_cases hrest : c ∈ columns
      · simp [hrest]
      · by_cases hfirst : c = first
        · subst hfirst
          simp [hrest]
        · simp [hrest, hfirst]

end

end Sql
