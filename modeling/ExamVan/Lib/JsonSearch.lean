import ExamVan.Lib.JsonNames

/-!
# Searching for a member outside of strings

A search that keeps track of the quotes stops where a quoted name stands outside of a string and what
follows it can be read. On a JSON text, if a colon has to follow, that is at the first member with
this spelling, in the order of the text and at any depth, whose value can be read.
-/

namespace JsonText

open ByteString

section

variable {α : Type*} (read : Bytes → Option α) (k : Bytes)

/-- The loop of the search, with whether it is in a string and behind a backslash. -/
def searchFrom : Bool → Bool → Bytes → Option α
  | _, _, [] => none
  | inStr, esc, c :: s =>
      let found :=
        if !inStr && !esc && decide (chr '"' :: (k ++ [chr '"']) <+: c :: s) then
          read (s.drop (k.length + 1))
        else none
      found.or
        (if esc then searchFrom inStr false s
        else if c = chr '\\' ∧ inStr then searchFrom inStr true s
        else if c = chr '"' then searchFrom (!inStr) false s
        else searchFrom inStr false s)

end

mutual

/-- The first member whose name passes a test and whose value, with the blanks behind it, can be
read. -/
def Value.search {α : Type*} (p : List Piece → Bool) (of : Value → Blanks → Option α) :
    Value → Option α
  | .literal _ => none
  | .string _ => none
  | .array _ items => items.search p of
  | .object _ members => members.search p of

def Items.search {α : Type*} (p : List Piece → Bool) (of : Value → Blanks → Option α) :
    Items → Option α
  | .nil => none
  | .cons _ v _ rest => (v.search p of).or (rest.search p of)

def Members.search {α : Type*} (p : List Piece → Bool) (of : Value → Blanks → Option α) :
    Members → Option α
  | .nil => none
  | .cons _ name _ _ v post rest =>
      (if p name then of v post else none).or ((v.search p of).or (rest.search p of))

end

/-- The value of the first member whose name passes a test. -/
def Value.first (p : List Piece → Bool) (v : Value) : Option Value := v.search p fun v _ => some v

/-! ### The first member -/

section

variable {α : Type*} {p : List Piece → Bool}

mutual

theorem Value.search_map {β : Type*} (of : Value → Blanks → Option α) (f : α → β) : ∀ v : Value,
    v.search p (fun w post => (of w post).map f) = (v.search p of).map f
  | .literal _ => rfl
  | .string _ => rfl
  | .array _ items => items.search_map of f
  | .object _ members => members.search_map of f

theorem Items.search_map {β : Type*} (of : Value → Blanks → Option α) (f : α → β) : ∀ items : Items,
    items.search p (fun w post => (of w post).map f) = (items.search p of).map f
  | .nil => rfl
  | .cons _ v _ rest => by
      rw [Items.search, Items.search, v.search_map of f, rest.search_map of f, Option.map_or]

theorem Members.search_map {β : Type*} (of : Value → Blanks → Option α) (f : α → β) :
    ∀ members : Members,
      members.search p (fun w post => (of w post).map f) = (members.search p of).map f
  | .nil => rfl
  | .cons _ name _ _ v _ rest => by
      rw [Members.search, Members.search, v.search_map of f, rest.search_map of f, Option.map_or,
        Option.map_or]
      split <;> rfl

end

mutual

/-- A search that can read every value fails only if no name passes the test. -/
theorem Value.search_eq_none_iff (f : Value → Blanks → α) : ∀ v : Value,
    (v.search p fun w post => some (f w post)) = none ↔ ∀ name ∈ v.names, ¬ p name = true
  | .literal _ => iff_of_true rfl nofun
  | .string _ => iff_of_true rfl nofun
  | .array _ items => items.search_eq_none_iff f
  | .object _ members => members.search_eq_none_iff f

theorem Items.search_eq_none_iff (f : Value → Blanks → α) : ∀ items : Items,
    (items.search p fun w post => some (f w post)) = none ↔ ∀ name ∈ items.names, ¬ p name = true
  | .nil => iff_of_true rfl nofun
  | .cons _ v _ rest => by
      rw [Items.search, Option.or_eq_none_iff, v.search_eq_none_iff f, rest.search_eq_none_iff f,
        Items.names, List.forall_mem_append]

theorem Members.search_eq_none_iff (f : Value → Blanks → α) : ∀ members : Members,
    (members.search p fun w post => some (f w post)) = none ↔
      ∀ name ∈ members.names, ¬ p name = true
  | .nil => iff_of_true rfl nofun
  | .cons _ name _ _ v _ rest => by
      rw [Members.search, Option.or_eq_none_iff, Option.or_eq_none_iff, v.search_eq_none_iff f,
        rest.search_eq_none_iff f, Members.names, List.forall_mem_cons, List.forall_mem_append]
      refine and_congr_left fun _ => ?_
      split
      next hp => exact iff_of_false (Option.some_ne_none _) (not_not.mpr hp)
      next hp => exact iff_of_true rfl hp

end

mutual

theorem Value.search_none (of : Value → Option α) : ∀ v : Value,
    (v.search p fun v _ => some v) = none → (v.search p fun v _ => of v) = none
  | .literal _, _ => rfl
  | .string _, _ => rfl
  | .array _ items, h => items.search_none of h
  | .object _ members, h => members.search_none of h

theorem Items.search_none (of : Value → Option α) : ∀ items : Items,
    (items.search p fun v _ => some v) = none → (items.search p fun v _ => of v) = none
  | .nil, _ => rfl
  | .cons _ v _ rest, h => by
      obtain ⟨hv, hrest⟩ := Option.or_eq_none_iff.mp h
      rw [Items.search, v.search_none of hv, rest.search_none of hrest]
      rfl

theorem Members.search_none (of : Value → Option α) : ∀ members : Members,
    (members.search p fun v _ => some v) = none → (members.search p fun v _ => of v) = none
  | .nil, _ => rfl
  | .cons _ name _ _ v _ rest, h => by
      obtain ⟨hname, hboth⟩ := Option.or_eq_none_iff.mp h
      obtain ⟨hv, hrest⟩ := Option.or_eq_none_iff.mp hboth
      have hno : ¬ p name = true := fun hp => by simp [hp] at hname
      rw [Members.search, if_neg hno, v.search_none of hv, rest.search_none of hrest]
      rfl

end

mutual

/-- A search that can read the first member comes upon no other. -/
theorem Value.search_first {of : Value → Option α} {a : α} {w : Value} (hw : of w = some a) :
    ∀ v : Value, (v.search p fun v _ => some v) = some w → (v.search p fun v _ => of v) = some a
  | .array _ items, h => items.search_first hw h
  | .object _ members, h => members.search_first hw h

theorem Items.search_first {of : Value → Option α} {a : α} {w : Value} (hw : of w = some a) :
    ∀ items : Items,
      (items.search p fun v _ => some v) = some w → (items.search p fun v _ => of v) = some a
  | .cons _ v _ rest, h => by
      rw [Items.search]
      rcases Option.or_eq_some_iff.mp h with hv | ⟨hv, hrest⟩
      · rw [Value.search_first hw v hv]
        rfl
      · rw [v.search_none of hv, rest.search_first hw hrest]
        rfl

theorem Members.search_first {of : Value → Option α} {a : α} {w : Value} (hw : of w = some a) :
    ∀ members : Members,
      (members.search p fun v _ => some v) = some w → (members.search p fun v _ => of v) = some a
  | .cons _ name _ _ v _ rest, h => by
      rw [Members.search] at h ⊢
      by_cases hp : p name = true
      · rw [if_pos hp] at h ⊢
        obtain rfl : v = w := by simpa using h
        rw [hw]
        rfl
      · rw [if_neg hp, Option.none_or] at h ⊢
        rcases Option.or_eq_some_iff.mp h with hv | ⟨hv, hrest⟩
        · rw [Value.search_first hw v hv]
          rfl
        · rw [v.search_none of hv, rest.search_first hw hrest]
          rfl

end

end

section

variable {α : Type*} {read : Bytes → Option α} {k t : Bytes} {c : UInt8}

/-! ### One token -/

theorem searchFrom_pass (hc : c ≠ chr '"') :
    searchFrom read k false false (c :: t) = searchFrom read k false false t := by
  have hname : ¬ chr '"' :: (k ++ [chr '"']) <+: c :: t := fun h =>
    hc (List.cons_prefix_cons.mp h).1.symm
  simp [searchFrom, hname, hc]

theorem searchFrom_pass_append {w : Bytes} (h : chr '"' ∉ w) :
    searchFrom read k false false (w ++ t) = searchFrom read k false false t := by
  induction w with
  | nil => rfl
  | cons c w ih =>
      rw [List.mem_cons, not_or] at h
      rw [List.cons_append, searchFrom_pass (Ne.symm h.1), ih h.2]

theorem searchFrom_blanks (w : Blanks) :
    searchFrom read k false false (w.text ++ t) = searchFrom read k false false t :=
  searchFrom_pass_append fun hmem => absurd (w.isBlank _ hmem) (by decide)

theorem searchFrom_inside (hquote : c ≠ chr '"') (hback : c ≠ chr '\\') :
    searchFrom read k true false (c :: t) = searchFrom read k true false t := by
  simp [searchFrom, hquote, hback]

theorem searchFrom_escape : searchFrom read k true false (chr '\\' :: c :: t) =
    searchFrom read k true false t := by
  simp [searchFrom]

theorem searchFrom_piece (p : Piece) :
    searchFrom read k true false (p.text ++ t) = searchFrom read k true false t := by
  cases p with
  | plain c hc => exact searchFrom_inside hc.2.1 hc.2.2
  | short c hc => exact searchFrom_escape
  | unicode h₁ h₂ h₃ h₄ hhex =>
      have hplain : ∀ c u, isHexDigit c = true → searchFrom read k true false (c :: u) =
          searchFrom read k true false u :=
        fun c u hc => searchFrom_inside (ne_of_isHexDigit hc).1 (ne_of_isHexDigit hc).2
      simp only [Piece.text, List.cons_append, List.nil_append]
      rw [searchFrom_escape, hplain _ _ hhex.1, hplain _ _ hhex.2.1, hplain _ _ hhex.2.2.1,
        hplain _ _ hhex.2.2.2]

theorem searchFrom_raw (s : List Piece) :
    searchFrom read k true false (raw s ++ chr '"' :: t) = searchFrom read k false false t := by
  induction s with
  | nil => simp [searchFrom, chr]
  | cons p s ih => rw [raw_cons, List.append_assoc, searchFrom_piece, ih]

/-- A string is taken for a name if it is spelled like one. -/
theorem searchFrom_string {s : List Piece} (hk : chr '"' ∉ k ∧ chr '\\' ∉ k) :
    searchFrom read k false false (stringText s ++ t) =
      (if raw s = k then read t else none).or (searchFrom read k false false t) := by
  have htext : stringText s ++ t = chr '"' :: (raw s ++ chr '"' :: t) := by simp [stringText]
  have hbegins : chr '"' :: (k ++ [chr '"']) <+: chr '"' :: (raw s ++ chr '"' :: t) ↔ raw s = k := by
    constructor
    · intro h
      exact (raw_eq_of_head (x := []) hk (List.cons_prefix_cons.mp h).2).1
    · rintro rfl
      exact ⟨t, by simp⟩
  have hdrop : raw s = k → (raw s ++ chr '"' :: t).drop (k.length + 1) = t := by
    rintro rfl
    rw [← List.singleton_append, ← List.append_assoc]
    exact List.drop_left' (by simp)
  have hquote : searchFrom read k false false (chr '"' :: (raw s ++ chr '"' :: t)) =
      (if chr '"' :: (k ++ [chr '"']) <+: chr '"' :: (raw s ++ chr '"' :: t) then
        read ((raw s ++ chr '"' :: t).drop (k.length + 1)) else none).or
      (searchFrom read k true false (raw s ++ chr '"' :: t)) := by
    simp [searchFrom]
  rw [htext, hquote, searchFrom_raw]
  by_cases hs : raw s = k
  · rw [if_pos (hbegins.mpr hs), if_pos hs, hdrop hs]
  · rw [if_neg fun h => hs (hbegins.mp h), if_neg hs]

theorem searchFrom_comma (first : Bool) :
    searchFrom read k false false (comma first ++ t) = searchFrom read k false false t :=
  searchFrom_pass_append (by cases first <;> decide)

/-! ### Values -/

set_option linter.unusedSectionVars false

variable {of : Value → Blanks → Option α} (hk : chr '"' ∉ k ∧ chr '\\' ∉ k)
  (hnone : ∀ t, ¬ ColonNext t → read t = none)
  (hread : ∀ (mid gap : Blanks) (v : Value) (post : Blanks) (c : UInt8) (t : Bytes),
    c = chr ',' ∨ c = chr '}' →
      read (mid.text ++ chr ':' :: (gap.text ++ (v.render ++ (post.text ++ c :: t)))) = of v post)

include hk hnone hread

mutual

theorem searchFrom_value : ∀ (v : Value) (t : Bytes), ¬ ColonNext t →
    searchFrom read k false false (v.render ++ t) =
      (v.search (fun name => raw name = k) of).or (searchFrom read k false false t)
  | .literal l, t, _ => searchFrom_pass_append fun hmem =>
      (isWord_literal l _ hmem).2 (by decide)
  | .string s, t, ht => by
      rw [Value.render, searchFrom_string hk, hnone t ht, ite_self]
      rfl
  | .array lead items, t, _ => by
      simp only [Value.render, List.cons_append, List.append_assoc, List.nil_append]
      rw [searchFrom_pass (by decide), searchFrom_blanks, searchFrom_items items true t,
        searchFrom_pass (by decide), Value.search]
  | .object lead members, t, _ => by
      simp only [Value.render, List.cons_append, List.append_assoc, List.nil_append]
      rw [searchFrom_pass (by decide), searchFrom_blanks, searchFrom_members members true t,
        searchFrom_pass (by decide), Value.search]

theorem searchFrom_items : ∀ (items : Items) (first : Bool) (t : Bytes),
    searchFrom read k false false (items.render first ++ chr ']' :: t) =
      (items.search (fun name => raw name = k) of).or (searchFrom read k false false (chr ']' :: t))
  | .nil, _, t => rfl
  | .cons pre v post rest, first, t => by
      have hno : ¬ ColonNext (post.text ++ (rest.render false ++ chr ']' :: t)) := by
        rw [colonNext_blanks]
        exact not_colonNext_items rest t
      simp only [Items.render, List.append_assoc]
      rw [searchFrom_comma, searchFrom_blanks, searchFrom_value v _ hno, searchFrom_blanks,
        searchFrom_items rest false t, Items.search, Option.or_assoc]

theorem searchFrom_members : ∀ (members : Members) (first : Bool) (t : Bytes),
    searchFrom read k false false (members.render first ++ chr '}' :: t) =
      (members.search (fun name => raw name = k) of).or
        (searchFrom read k false false (chr '}' :: t))
  | .nil, _, t => rfl
  | .cons pre name mid gap v post rest, first, t => by
      have hno : ¬ ColonNext (post.text ++ (rest.render false ++ chr '}' :: t)) := by
        rw [colonNext_blanks]
        exact not_colonNext_members rest t
      obtain ⟨c, u, hu, hc⟩ := members_head rest t
      have hvalue : read (mid.text ++ chr ':' :: (gap.text ++ (v.render ++
          (post.text ++ (rest.render false ++ chr '}' :: t))))) = of v post := by
        rw [hu]
        exact hread mid gap v post c u hc
      simp only [Members.render, List.append_assoc, List.cons_append]
      rw [searchFrom_comma, searchFrom_blanks, searchFrom_string hk, hvalue, searchFrom_blanks,
        searchFrom_pass (by decide), searchFrom_blanks, searchFrom_value v _ hno, searchFrom_blanks,
        searchFrom_members rest false t, Members.search]
      simp only [Option.or_assoc, decide_eq_true_eq]

end

/-- On a JSON text the search comes upon the first member of this spelling that can be read. -/
theorem searchFrom_render (q : Text) :
    searchFrom read k false false q.render = q.v.search (fun name => raw name = k) of := by
  have hno : ¬ ColonNext (q.trail.text ++ []) := by
    rw [colonNext_blanks]
    exact not_colonNext_nil
  have htext : q.render = q.lead.text ++ (q.v.render ++ (q.trail.text ++ [])) := by
    simp [Text.render]
  rw [htext, searchFrom_blanks, searchFrom_value hk hnone hread q.v _ hno, searchFrom_blanks]
  exact Option.or_none

end

end JsonText
