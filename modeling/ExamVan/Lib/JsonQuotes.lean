import ExamVan.Lib.JsonReading

/-!
# Backslashes in a JSON text

A reader that knows only quotes and backslashes can tell where the strings of a text are. Outside of
them it meets no backslash.
-/

namespace JsonText

open ByteString

/-- Outside of strings, inside of one, or behind a backslash in one. -/
inductive Mode
  | outside
  | inside
  | escaped
  deriving DecidableEq

def Mode.next : Mode → UInt8 → Option Mode
  | .outside, c => if c = chr '\\' then none else some (if c = chr '"' then .inside else .outside)
  | .inside, c =>
      some (if c = chr '\\' then .escaped else if c = chr '"' then .outside else .inside)
  | .escaped, _ => some .inside

/-- The mode after a text, unless a backslash stands outside of strings. -/
def Mode.after (m : Mode) (s : Bytes) : Option Mode := s.foldlM Mode.next m

namespace Mode

variable {m : Mode} {c : UInt8} {s t : Bytes}

@[simp]
theorem after_nil (m : Mode) : m.after [] = some m := rfl

theorem after_cons (m : Mode) (c : UInt8) (s : Bytes) :
    m.after (c :: s) = (m.next c).bind fun m => m.after s := rfl

theorem after_append (m : Mode) (s t : Bytes) :
    m.after (s ++ t) = (m.after s).bind fun m => m.after t := List.foldlM_append

/-- A part of the text that keeps the mode may be left out. -/
theorem after_append_of_self (h : m.after s = some m) : m.after (s ++ t) = m.after t := by
  rw [after_append, h, Option.bind_some]

theorem after_cons_of_self (h : m.next c = some m) : m.after (c :: s) = m.after s := by
  rw [after_cons, h, Option.bind_some]

/-- Bytes that keep the mode one by one. -/
theorem after_of_forall (h : ∀ c ∈ s, m.next c = some m) : m.after s = some m := by
  induction s with
  | nil => rfl
  | cons c s ih =>
      rw [after_cons_of_self (h c List.mem_cons_self)]
      exact ih fun b hb => h b (List.mem_cons_of_mem c hb)

theorem next_outside_of_ne (hquote : c ≠ chr '"') (hback : c ≠ chr '\\') :
    outside.next c = some outside := by
  simp [next, hquote, hback]

theorem next_inside_of_ne (hquote : c ≠ chr '"') (hback : c ≠ chr '\\') :
    inside.next c = some inside := by
  simp [next, hquote, hback]

end Mode

open Mode

/-! ### Tokens -/

theorem after_blanks (w : Blanks) : outside.after w.text = some outside := by
  refine after_of_forall fun c hc => ?_
  obtain rfl | rfl | rfl | rfl := isBlank_cases (w.isBlank c hc)
  all_goals decide

theorem next_digit {c : UInt8} (h : isDigit c = true) : outside.next c = some outside := by
  refine next_outside_of_ne ?_ ?_
  all_goals
    rintro rfl
    exact absurd h (by decide)

theorem after_digits (d : Digits) : outside.after d.text = some outside :=
  after_of_forall fun c hc => next_digit (d.isDigit c hc)

theorem after_signText (sign : Option Bool) : outside.after (signText sign) = some outside := by
  rcases sign with _ | _ | _ <;> decide

theorem after_number (n : Number) : outside.after n.text = some outside := by
  have hminus : outside.after (if n.minus then [chr '-'] else []) = some outside := by
    cases n.minus <;> decide
  rw [Number.text, List.append_assoc, List.append_assoc, after_append_of_self hminus,
    after_append_of_self (after_digits n.whole), after_append_of_self]
  · cases n.exponent with
    | none => rfl
    | some e =>
        obtain ⟨upper, sign, d⟩ := e
        dsimp only
        rw [after_cons_of_self, after_append_of_self (after_signText sign), after_digits]
        cases upper <;> decide
  · cases n.fraction with
    | none => rfl
    | some d => exact (after_cons_of_self (by decide)).trans (after_digits d)

theorem after_literal (l : Literal) : outside.after l.text = some outside := by
  cases l with
  | null | true | false => decide
  | number n => exact after_number n

theorem after_piece (p : Piece) : inside.after p.text = some inside := by
  cases p with
  | plain c h => exact (after_cons_of_self (next_inside_of_ne h.2.1 h.2.2)).trans rfl
  | short c h => rfl
  | unicode h₁ h₂ h₃ h₄ h =>
      have hnext : ∀ {c : UInt8}, isHexDigit c = true → inside.next c = some inside := by
        intro c hc
        refine next_inside_of_ne ?_ ?_
        all_goals
          rintro rfl
          exact absurd hc (by decide)
      change inside.after [h₁, h₂, h₃, h₄] = some inside
      refine after_of_forall fun c hc => hnext ?_
      simp only [List.mem_cons, List.not_mem_nil, or_false] at hc
      obtain rfl | rfl | rfl | rfl := hc
      exacts [h.1, h.2.1, h.2.2.1, h.2.2.2]

theorem after_raw (s : List Piece) : inside.after (raw s) = some inside := by
  induction s with
  | nil => rfl
  | cons p s ih => rw [raw_cons, after_append_of_self (after_piece p), ih]

theorem after_stringText (s : List Piece) : outside.after (stringText s) = some outside := by
  change inside.after (raw s ++ [chr '"']) = some outside
  rw [after_append_of_self (after_raw s)]
  rfl

theorem after_comma (first : Bool) : outside.after (comma first) = some outside := by
  cases first <;> decide

/-! ### Texts -/

mutual

theorem after_value : ∀ v : Value, outside.after v.render = some outside
  | .literal l => after_literal l
  | .string s => after_stringText s
  | .array lead items => by
      rw [Value.render, after_cons_of_self (by decide), List.append_assoc,
        after_append_of_self (after_blanks lead), after_append_of_self (after_items true items)]
      rfl
  | .object lead members => by
      rw [Value.render, after_cons_of_self (by decide), List.append_assoc,
        after_append_of_self (after_blanks lead), after_append_of_self (after_members true members)]
      rfl

theorem after_items (first : Bool) : ∀ items : Items,
    outside.after (items.render first) = some outside
  | .nil => rfl
  | .cons pre v post rest => by
      simp only [Items.render, List.append_assoc]
      rw [after_append_of_self (after_comma first), after_append_of_self (after_blanks pre),
        after_append_of_self (after_value v), after_append_of_self (after_blanks post),
        after_items false rest]

theorem after_members (first : Bool) : ∀ members : Members,
    outside.after (members.render first) = some outside
  | .nil => rfl
  | .cons pre name mid gap v post rest => by
      simp only [Members.render, List.append_assoc, List.cons_append]
      rw [after_append_of_self (after_comma first), after_append_of_self (after_blanks pre),
        after_append_of_self (after_stringText name), after_append_of_self (after_blanks mid),
        after_cons_of_self (by decide), after_append_of_self (after_blanks gap),
        after_append_of_self (after_value v), after_append_of_self (after_blanks post),
        after_members false rest]

end

/-- A JSON text has no backslash outside of its strings. -/
theorem after_render (t : Text) : outside.after t.render = some outside := by
  rw [Text.render, List.append_assoc, after_append_of_self (after_blanks t.lead),
    after_append_of_self (after_value t.v), after_blanks]

end JsonText
