import ExamVan.Lib.JsonReading

/-!
# The bracket that closes a bracket

A scan that counts the brackets of one kind or of both, outside of strings, and ends with the one that
brings the count to zero. Over a value the count comes back to what it was.
-/

namespace JsonText

open ByteString

/-- The kinds of brackets that count. -/
structure Brackets where
  square : Bool
  curly : Bool

namespace Brackets

variable (b : Brackets)

def opens (c : UInt8) : Bool := b.square && c = chr '[' || b.curly && c = chr '{'

def closes (c : UInt8) : Bool := b.square && c = chr ']' || b.curly && c = chr '}'

/-- The text up to the bracket with which the depth is zero, and what follows it. -/
def closing : Int → Bool → Bool → Bytes → Option (Bytes × Bytes)
  | _, _, _, [] => none
  | depth, inStr, esc, c :: s =>
      let onward (depth : Int) (inStr esc : Bool) : Option (Bytes × Bytes) :=
        (closing depth inStr esc s).map fun r => (c :: r.1, r.2)
      if esc then onward depth inStr false
      else if c = chr '\\' ∧ inStr then onward depth inStr true
      else if c = chr '"' then onward depth (!inStr) false
      else if inStr then onward depth inStr false
      else if b.opens c then onward (depth + 1) inStr false
      else if b.closes c then
        if depth - 1 = 0 then some ([c], s) else onward (depth - 1) inStr false
      else onward depth inStr false

theorem closing_cons (depth : Int) (inStr esc : Bool) (c : UInt8) (s : Bytes) :
    b.closing depth inStr esc (c :: s) =
      let onward (depth : Int) (inStr esc : Bool) : Option (Bytes × Bytes) :=
        (b.closing depth inStr esc s).map fun r => (c :: r.1, r.2)
      if esc then onward depth inStr false
      else if c = chr '\\' ∧ inStr then onward depth inStr true
      else if c = chr '"' then onward depth (!inStr) false
      else if inStr then onward depth inStr false
      else if b.opens c then onward (depth + 1) inStr false
      else if b.closes c then
        if depth - 1 = 0 then some ([c], s) else onward (depth - 1) inStr false
      else onward depth inStr false := rfl

/-- The scan goes over a text, from one depth and side of the quotes to another. -/
def Over (w : Bytes) (depth : Int) (inStr : Bool) (depth' : Int) (inStr' : Bool) : Prop :=
  ∀ t, b.closing depth inStr false (w ++ t) =
    (b.closing depth' inStr' false t).map fun r => (w ++ r.1, r.2)

section

variable {b} {w w' : Bytes} {d d' d'' : Int} {i i' i'' : Bool} {c : UInt8}

theorem over_nil : b.Over [] d i d i := by
  intro t
  simp

theorem Over.append (h : b.Over w d i d' i') (h' : b.Over w' d' i' d'' i'') :
    b.Over (w ++ w') d i d'' i'' := by
  intro t
  rw [List.append_assoc, h, h', Option.map_map]
  simp [Function.comp_def]

theorem Over.cons (h : b.Over [c] d i d' i') (h' : b.Over w d' i' d'' i'') :
    b.Over (c :: w) d i d'' i'' := h.append h'

theorem over_of_forall (h : ∀ c ∈ w, b.Over [c] d i d i) : b.Over w d i d i := by
  induction w with
  | nil => exact over_nil
  | cons c w ih =>
      exact (h c List.mem_cons_self).cons (ih fun e he => h e (List.mem_cons_of_mem c he))

/-- The scan divides the text. -/
theorem append_of_closing {s : Bytes} {esc : Bool} {r : Bytes × Bytes}
    (h : b.closing d i esc s = some r) : s = r.1 ++ r.2 := by
  induction s generalizing d i esc r with
  | nil => cases h
  | cons c s ih =>
      have honward : ∀ {d i esc}, ((b.closing d i esc s).map fun r => (c :: r.1, r.2)) = some r →
          c :: s = r.1 ++ r.2 := by
        intro d i esc hmap
        obtain ⟨r', hr', rfl⟩ := Option.map_eq_some_iff.mp hmap
        exact congrArg (c :: ·) (ih hr')
      simp only [closing_cons] at h
      split_ifs at h
      all_goals first | exact honward h | (cases h; rfl)

theorem ne_nil_of_closing {s : Bytes} {esc : Bool} {r : Bytes × Bytes}
    (h : b.closing d i esc s = some r) : r.1 ≠ [] := by
  cases s with
  | nil => cases h
  | cons c s =>
      have honward : ∀ {d i esc}, ((b.closing d i esc s).map fun r => (c :: r.1, r.2)) = some r →
          r.1 ≠ [] := by
        intro d i esc hmap
        obtain ⟨r', -, rfl⟩ := Option.map_eq_some_iff.mp hmap
        exact List.cons_ne_nil c r'.1
      simp only [closing_cons] at h
      split_ifs at h
      all_goals first | exact honward h | (cases h; exact List.cons_ne_nil _ _)

/-! ### One byte -/

theorem over_plain (hquote : c ≠ chr '"') (hopens : b.opens c = false) (hcloses : b.closes c = false) :
    b.Over [c] d false d false := by
  intro t
  simp [closing_cons, hquote, hopens, hcloses]

theorem over_inside (hquote : c ≠ chr '"') (hback : c ≠ chr '\\') : b.Over [c] d true d true := by
  intro t
  simp [closing_cons, hquote, hback]

theorem over_escape (c : UInt8) : b.Over [chr '\\', c] d true d true := by
  intro t
  simp [closing_cons, Function.comp_def]

theorem over_quote : b.Over [chr '"'] d i d (!i) := by
  intro t
  simp [closing_cons, chr]

theorem over_opens (hquote : c ≠ chr '"') (hopens : b.opens c = true) :
    b.Over [c] d false (d + 1) false := by
  intro t
  simp [closing_cons, hquote, hopens]

theorem over_closes (hquote : c ≠ chr '"') (hopens : b.opens c = false) (hcloses : b.closes c = true)
    (hd : d ≠ 0) : b.Over [c] (d + 1) false d false := by
  intro t
  simp [closing_cons, hquote, hopens, hcloses, hd]

theorem closing_closes (hquote : c ≠ chr '"') (hopens : b.opens c = false)
    (hcloses : b.closes c = true) (t : Bytes) : b.closing 1 false false (c :: t) = some ([c], t) := by
  simp [closing_cons, hquote, hopens, hcloses]

/-! ### Tokens -/

theorem over_word (hword : IsWord c) : b.Over [c] d false d false := by
  have hne : ∀ e ∈ str "\"[]\x7b\x7d,", c ≠ e := fun e he heq => hword.2 (heq ▸ he)
  refine over_plain (hne _ (by decide)) ?_ ?_
  · simp [opens, hne (chr '[') (by decide), hne (chr '{') (by decide)]
  · simp [closes, hne (chr ']') (by decide), hne (chr '}') (by decide)]

theorem over_blank (hblank : isBlank c = true) : b.Over [c] d false d false := by
  rcases isBlank_cases hblank with rfl | rfl | rfl | rfl <;>
    exact over_plain (by decide) (by simp [opens, chr]) (by simp [closes, chr])

theorem over_blanks (w : Blanks) : b.Over w.text d false d false :=
  over_of_forall fun c hc => over_blank (w.isBlank c hc)

theorem over_colon : b.Over [chr ':'] d false d false :=
  over_plain (by decide) (by simp [opens, chr]) (by simp [closes, chr])

theorem over_comma (first : Bool) : b.Over (comma first) d false d false := by
  cases first with
  | true => exact over_nil
  | false => exact over_plain (by decide) (by simp [opens, chr]) (by simp [closes, chr])

theorem over_piece (p : Piece) : b.Over p.text d true d true := by
  cases p with
  | plain c hc => exact over_inside hc.2.1 hc.2.2
  | short c hc => exact over_escape c
  | unicode h₁ h₂ h₃ h₄ hhex =>
      have hplain : ∀ c, isHexDigit c = true → b.Over [c] d true d true := fun c hc =>
        over_inside (ne_of_isHexDigit hc).1 (ne_of_isHexDigit hc).2
      exact (over_escape (chr 'u')).append
        ((hplain h₁ hhex.1).cons ((hplain h₂ hhex.2.1).cons
          ((hplain h₃ hhex.2.2.1).cons (hplain h₄ hhex.2.2.2))))

theorem over_raw (s : List Piece) : b.Over (raw s) d true d true := by
  induction s with
  | nil => exact over_nil
  | cons p s ih => exact (over_piece p).append ih

theorem over_string (s : List Piece) : b.Over (stringText s) d false d false :=
  over_quote.cons ((over_raw s).append over_quote)

/-! ### Values -/

/-- The brackets around a text that comes back to its depth. -/
theorem over_brackets {o e : UInt8} (hopen : b.opens o = b.closes e) (hoquote : o ≠ chr '"')
    (hequote : e ≠ chr '"') (hno : b.closes o = false) (hne : b.opens e = false)
    (hw : ∀ d, 0 < d → b.Over w d false d false) (hd : 0 < d) :
    b.Over (o :: (w ++ [e])) d false d false := by
  cases hopens : b.opens o with
  | true =>
      exact (over_opens hoquote hopens).cons ((hw (d + 1) (by omega)).append
        (over_closes hequote hne (hopen ▸ hopens) (by omega)))
  | false =>
      exact (over_plain hoquote hopens hno).cons ((hw d hd).append
        (over_plain hequote hne (hopen ▸ hopens)))

mutual

theorem over_value : ∀ (v : Value) {d : Int}, 0 < d → b.Over v.render d false d false
  | .literal l, _, _ => over_of_forall fun c hc => over_word (isWord_literal l c hc)
  | .string s, _, _ => over_string s
  | .array lead items, _, hd =>
      over_brackets (by simp [opens, closes, chr]) (by decide) (by decide) (by simp [closes, chr])
        (by simp [opens, chr]) (fun _ hpos => (over_blanks lead).append (over_items items true hpos)) hd
  | .object lead members, _, hd =>
      over_brackets (by simp [opens, closes, chr]) (by decide) (by decide) (by simp [closes, chr])
        (by simp [opens, chr])
        (fun _ hpos => (over_blanks lead).append (over_members members true hpos)) hd

theorem over_items : ∀ (items : Items) (first : Bool) {d : Int}, 0 < d →
    b.Over (items.render first) d false d false
  | .nil, _, _, _ => over_nil
  | .cons pre v post rest, first, _, hd =>
      ((((over_comma first).append (over_blanks pre)).append (over_value v hd)).append
        (over_blanks post)).append (over_items rest false hd)

theorem over_members : ∀ (members : Members) (first : Bool) {d : Int}, 0 < d →
    b.Over (members.render first) d false d false
  | .nil, _, _, _ => over_nil
  | .cons pre name mid gap v post rest, first, d, hd => by
      have hname := (((over_comma (b := b) (d := d) first).append (over_blanks pre)).append
        (over_string name)).append (over_blanks mid)
      have hvalue := (over_blanks (b := b) gap).append (over_value v hd)
      have hrest := (over_blanks (b := b) post).append (over_members rest false hd)
      simpa only [Members.render, List.append_assoc, List.cons_append] using
        hname.append (over_colon.cons (hvalue.append hrest))

end

/-- From the opening bracket of an array the scan ends with its closing one. -/
theorem closing_array (hsquare : b.square = true) (lead : Blanks) (items : Items) (t : Bytes) :
    b.closing 0 false false ((Value.array lead items).render ++ t) =
      some ((Value.array lead items).render, t) := by
  have hbody := ((over_blanks (b := b) lead).append (over_items items true Int.one_pos))
  have hopen : b.Over [chr '['] 0 false 1 false :=
    over_opens (by decide) (by simp [opens, hsquare])
  have hend := closing_closes (b := b) (c := chr ']') (by decide) (by simp [opens, chr])
    (by simp [closes, hsquare]) t
  have htext : (Value.array lead items).render ++ t =
      [chr '['] ++ ((lead.text ++ items.render true) ++ chr ']' :: t) := by simp [Value.render]
  rw [htext, hopen, hbody, hend]
  simp [Value.render]

theorem closing_object (hcurly : b.curly = true) (lead : Blanks) (members : Members) (t : Bytes) :
    b.closing 0 false false ((Value.object lead members).render ++ t) =
      some ((Value.object lead members).render, t) := by
  have hbody := ((over_blanks (b := b) lead).append (over_members members true Int.one_pos))
  have hopen : b.Over [chr '{'] 0 false 1 false :=
    over_opens (by decide) (by simp [opens, hcurly])
  have hend := closing_closes (b := b) (c := chr '}') (by decide) (by simp [opens, chr])
    (by simp [closes, hcurly]) t
  have htext : (Value.object lead members).render ++ t =
      [chr '{'] ++ ((lead.text ++ members.render true) ++ chr '}' :: t) := by simp [Value.render]
  rw [htext, hopen, hbody, hend]
  simp [Value.render]

end

end Brackets

end JsonText
