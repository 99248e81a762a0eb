import Mathlib.Data.Bool.Basic
import Mathlib.Data.List.Nodup
import Mathlib.Data.List.Perm.Basic
import Mathlib.Logic.Function.Basic

/-!
# Rows written by key

A row that is written takes the place of the one with its key and becomes the last. After a series of
writes a key has the last row that was written under it.
-/

namespace Sql

variable {α κ : Type*} (key : α → κ)

/-- `INSERT … ON CONFLICT DO UPDATE` of every column, in the order of the time of the update. -/
def put [DecidableEq κ] (rows : List α) (a : α) : List α := (rows.filter fun b => key b ≠ key a) ++ [a]

/-- The row is the last of its key in a list. -/
def LastIn (l : List α) (a : α) : Prop :=
  ∃ before after, l = before ++ a :: after ∧ ∀ b ∈ after, key b ≠ key a

section

variable {key} {rows l : List α} {a b : α}

theorem lastIn_cons : LastIn key (a :: l) b ↔ LastIn key l b ∨ a = b ∧ ∀ c ∈ l, key c ≠ key b := by
  constructor
  · rintro ⟨before, after, heq, hafter⟩
    cases before with
    | nil =>
        obtain ⟨rfl, rfl⟩ := List.cons.inj heq
        exact .inr ⟨rfl, hafter⟩
    | cons c before =>
        obtain ⟨-, rfl⟩ := List.cons.inj heq
        exact .inl ⟨before, after, rfl, hafter⟩
  · rintro (⟨before, after, rfl, hafter⟩ | ⟨rfl, hl⟩)
    · exact ⟨a :: before, after, rfl, hafter⟩
    · exact ⟨[], l, rfl, hl⟩

theorem LastIn.mem (h : LastIn key l a) : a ∈ l := by
  obtain ⟨before, after, rfl, -⟩ := h
  simp

theorem lastIn_map {β : Type*} {f : β → α} {l : List β} :
    LastIn key (l.map f) a ↔ ∃ b, LastIn (fun b => key (f b)) l b ∧ f b = a := by
  constructor
  · rintro ⟨before, after, heq, hafter⟩
    obtain ⟨before, rest, rfl, rfl, hrest⟩ := List.map_eq_append_iff.mp heq
    obtain ⟨b, after, rfl, rfl, rfl⟩ := List.map_eq_cons_iff.mp hrest
    exact ⟨b, ⟨before, after, rfl, fun c hc => hafter (f c) (List.mem_map_of_mem hc)⟩, rfl⟩
  · rintro ⟨b, ⟨before, after, rfl, hafter⟩, rfl⟩
    exact ⟨before.map f, after.map f, by simp, List.forall_mem_map.mpr hafter⟩

/-- Among the rows of a key there is a last one. -/
theorem exists_lastIn {k : κ} (h : ∃ a ∈ l, key a = k) : ∃ b, key b = k ∧ LastIn key l b := by
  induction l with
  | nil =>
      obtain ⟨a, ha, -⟩ := h
      cases ha
  | cons c l ih =>
      by_cases hl : ∃ a ∈ l, key a = k
      · obtain ⟨b, hb, hlast⟩ := ih hl
        exact ⟨b, hb, lastIn_cons.mpr (.inl hlast)⟩
      · push Not at hl
        obtain ⟨a, ha, rfl⟩ := h
        obtain rfl : a = c := (List.mem_cons.mp ha).resolve_right fun hmem => hl a hmem rfl
        exact ⟨a, rfl, lastIn_cons.mpr (.inr ⟨rfl, hl⟩)⟩

section

variable [DecidableEq κ]

theorem mem_put : b ∈ put key rows a ↔ b ∈ rows ∧ key b ≠ key a ∨ b = a := by
  simp [put]

theorem nodup_put (h : (rows.map key).Nodup) : ((put key rows a).map key).Nodup := by
  have hfilter : ((rows.filter fun b => key b ≠ key a).map key).Nodup :=
    h.sublist (List.filter_sublist.map key)
  rw [put, List.map_append, List.map_singleton]
  refine hfilter.append (List.nodup_singleton _) ?_
  intro k hk hlast
  obtain ⟨b, hb, rfl⟩ := List.mem_map.mp hk
  have hne : key b ≠ key a := by simpa using (List.mem_filter.mp hb).2
  exact hne (List.mem_singleton.mp hlast)

theorem nodup_foldl_put (h : (rows.map key).Nodup) (l : List α) :
    ((l.foldl (put key) rows).map key).Nodup := by
  induction l generalizing rows with
  | nil => exact h
  | cons a l ih => exact ih (nodup_put h)

/-- A row is there if it was written last under its key, or was there and no other was. -/
theorem mem_foldl_put : b ∈ l.foldl (put key) rows ↔
    b ∈ rows ∧ (∀ a ∈ l, key a ≠ key b) ∨ LastIn key l b := by
  induction l generalizing rows with
  | nil =>
      have hno : ¬ LastIn key [] b := fun h => absurd h.mem List.not_mem_nil
      simp [hno]
  | cons a l ih =>
      rw [List.foldl_cons, ih, mem_put, lastIn_cons, List.forall_mem_cons]
      constructor
      · rintro (⟨⟨hb, hne⟩ | rfl, hl⟩ | hlast)
        · exact .inl ⟨hb, Ne.symm hne, hl⟩
        · exact .inr (.inr ⟨rfl, hl⟩)
        · exact .inr (.inl hlast)
      · rintro (⟨hb, hne, hl⟩ | hlast | ⟨rfl, hl⟩)
        · exact .inl ⟨.inl ⟨hb, Ne.symm hne⟩, hl⟩
        · exact .inr hlast
        · exact .inl ⟨.inr rfl, hl⟩

/-- Writing changes nothing if and only if the last row under each key was there. -/
theorem perm_foldl_put_iff (hkeys : (rows.map key).Nodup) :
    (l.foldl (put key) rows).Perm rows ↔ ∀ b, LastIn key l b → b ∈ rows := by
  constructor
  · intro h b hb
    exact h.mem_iff.mp (mem_foldl_put.mpr (.inr hb))
  · intro h
    refine (List.perm_ext_iff_of_nodup (nodup_foldl_put hkeys l).of_map hkeys.of_map).mpr fun b => ?_
    rw [mem_foldl_put]
    refine ⟨fun hb => hb.elim And.left (h b), fun hb => ?_⟩
    by_cases hwritten : ∃ a ∈ l, key a = key b
    · obtain ⟨c, hc, hlast⟩ := exists_lastIn hwritten
      obtain rfl : c = b := List.inj_on_of_nodup_map hkeys (h c hlast) hb hc
      exact .inr hlast
    · push Not at hwritten
      exact .inl ⟨hb, hwritten⟩

end

end

end Sql

/-!
## Updates of a row by columns

A row assigns a value to each column. An update is meant to set some of the columns. It loses no
update of another if every column holds what the last update that set it has committed.
-/

namespace Columns

variable {κ ν : Type*} {row row' committed : κ → ν} {sets : κ → Bool}

/-- Every column of the row holds what was committed there. -/
def Kept (row committed : κ → ν) : Prop := ∀ c, row c = committed c

/-- What is committed in each column after an update that sets some of them. -/
def commit (sets : κ → Bool) (row' committed : κ → ν) : κ → ν :=
  fun c => if sets c then row' c else committed c

/-- An update loses nothing if it leaves the columns alone that it does not set, and only then. -/
theorem kept_commit_iff (h : Kept row committed) :
    Kept row' (commit sets row' committed) ↔ ∀ c, sets c = false → row' c = row c := by
  constructor
  · intro hkept c hc
    have hcommitted := hkept c
    rw [commit, hc, if_neg Bool.false_ne_true] at hcommitted
    rw [hcommitted, h c]
  · intro hleft c
    cases hc : sets c with
    | true => rw [commit, hc, if_pos rfl]
    | false => rw [commit, hc, if_neg Bool.false_ne_true, hleft c hc, h c]

end Columns

/-!
## SQL values and keyed tables

A nullable column is an `Option`. A table with a unique key is a function from keys to rows.
-/

namespace Sql

variable {α κ ρ : Type*}

/-- `COALESCE(a, b)`. -/
def coalesce (a b : Option α) : Option α := a.or b

/-- `NULLIF(a, b)` of two values that are not null. -/
def nullIf [DecidableEq α] (a b : α) : Option α := if a = b then none else some a

/-- `a = b` in a `WHERE`, where null counts as false. -/
def eqValue [DecidableEq α] (a : Option α) (b : α) : Bool := a == some b

@[simp]
theorem coalesce_some (a : α) (b : Option α) : coalesce (some a) b = some a := rfl

@[simp]
theorem coalesce_none (b : Option α) : coalesce none b = b := rfl

@[simp]
theorem nullIf_self [DecidableEq α] (a : α) : nullIf a a = none := if_pos rfl

theorem nullIf_of_ne [DecidableEq α] {a b : α} (h : a ≠ b) : nullIf a b = some a := if_neg h

/-- A table by its unique key. -/
abbrev Table (κ ρ : Type*) := κ → Option ρ

namespace Table

variable [DecidableEq κ]

/-- The table with a new row under `k`. -/
def write (t : Table κ ρ) (k : κ) (row : ρ) : Table κ ρ :=
  fun k' => if k' = k then some row else t k'

/-- `INSERT … ON CONFLICT DO NOTHING`. -/
def insertIfAbsent (t : Table κ ρ) (k : κ) (row : ρ) : Table κ ρ :=
  match t k with
  | some _ => t
  | none => t.write k row

/-- `INSERT … ON CONFLICT DO UPDATE`, with what the update makes of the row that is there. -/
def upsert (t : Table κ ρ) (k : κ) (row : ρ) (onConflict : ρ → ρ) : Table κ ρ :=
  match t k with
  | some old => t.write k (onConflict old)
  | none => t.write k row

@[simp]
theorem write_self (t : Table κ ρ) (k : κ) (row : ρ) : t.write k row k = some row := by
  rw [write, if_pos rfl]

@[simp]
theorem write_of_ne (t : Table κ ρ) {k k' : κ} (row : ρ) (h : k' ≠ k) : t.write k row k' = t k' := by
  rw [write, if_neg h]

theorem insertIfAbsent_of_some {t : Table κ ρ} {k k' : κ} {row old : ρ} (h : t k' = some old) :
    t.insertIfAbsent k row k' = some old := by
  unfold insertIfAbsent
  cases hk : t k with
  | some _ => exact h
  | none =>
      have hne : k' ≠ k := by
        rintro rfl
        rw [hk] at h
        cases h
      rw [← h]
      exact write_of_ne t row hne

theorem upsert_self (t : Table κ ρ) (k : κ) (row : ρ) (onConflict : ρ → ρ) :
    t.upsert k row onConflict k = some ((t k).elim row onConflict) := by
  unfold upsert
  cases t k <;> simp

theorem upsert_of_ne (t : Table κ ρ) {k k' : κ} (row : ρ) (onConflict : ρ → ρ) (h : k' ≠ k) :
    t.upsert k row onConflict k' = t k' := by
  unfold upsert
  cases t k <;> simp [h]

end Table

end Sql
