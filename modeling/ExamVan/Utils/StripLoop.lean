import ExamVan.Lib.JsonReading
import ExamVan.Utils.Sanitize

/-!
# Rounds of the stripping loop

What the loop does on one token of a JSON text that stands where the search starts: it passes over
every token that is not a member name it looks for, whatever the text before it, and erases a member
whose name it looks for if the blanks allow it.
-/

namespace ExamVan.Utils

open ByteString JsonText

/-! ### Passing over bytes -/

theorem stripLoop_of_none {k done rest : Bytes} (h : stripStep k done rest = none) :
    stripLoop k done rest = done ++ rest := by
  rw [stripLoop]
  split
  · rfl
  next hstep => simp [h] at hstep

theorem stripLoop_of_some {k done rest d r : Bytes} (h : stripStep k done rest = some (d, r)) :
    stripLoop k done rest = stripLoop k d r := by
  rw [stripLoop]
  split
  next hstep => simp [h] at hstep
  next hstep =>
    rw [h] at hstep
    cases hstep
    rfl

@[simp]
theorem stripLoop_nil (k done : Bytes) : stripLoop k done [] = done := by
  rw [stripLoop_of_none (by simp [stripStep, findSub, needle]), List.append_nil]

/-- The search passes over what the spelling does not start in. -/
theorem stripLoop_pass {k done w tail : Bytes}
    (h : findSub (needle k) (w ++ tail) = findSub (needle k) tail) :
    stripLoop k done (w ++ tail) = stripLoop k (done ++ w) tail := by
  have hstep : stripStep k done (w ++ tail) = stripStep k (done ++ w) tail := by
    unfold stripStep
    rw [h]
    cases hfind : findSub (needle k) tail with
    | none => rfl
    | some found =>
        obtain ⟨skip, rfl, -⟩ := exists_of_findSub hfind
        have hlong : (w ++ (skip ++ found)).take ((w ++ (skip ++ found)).length - found.length) =
            w ++ skip := by
          rw [← List.append_assoc, List.length_append, Nat.add_sub_cancel, List.take_left]
        have hshort : (skip ++ found).take ((skip ++ found).length - found.length) = skip := by
          rw [List.length_append, Nat.add_sub_cancel, List.take_left]
        dsimp only
        rw [hlong, hshort, ← List.append_assoc done w skip]
  cases hnext : stripStep k (done ++ w) tail with
  | none => rw [stripLoop_of_none hnext, stripLoop_of_none (hstep.trans hnext), List.append_assoc]
  | some next => rw [stripLoop_of_some hnext, stripLoop_of_some (hstep.trans hnext)]

theorem stripLoop_pass_of_notMem {k done w tail : Bytes} (h : chr '"' ∉ w) :
    stripLoop k done (w ++ tail) = stripLoop k (done ++ w) tail :=
  stripLoop_pass (findSub_append_of_notMem h)

theorem stripLoop_pass_byte {k done tail : Bytes} {c : UInt8} (h : ¬ needle k <+: c :: tail) :
    stripLoop k done (c :: tail) = stripLoop k (done ++ [c]) tail :=
  stripLoop_pass (w := [c]) (by simp [findSub, h])

/-! ### Passing over a string -/

/-- A name without quotes and backslashes. -/
def Plain (k : Bytes) : Prop := chr '"' ∉ k ∧ chr '\\' ∉ k

instance (k : Bytes) : Decidable (Plain k) := inferInstanceAs (Decidable (_ ∧ _))

theorem quote_notMem_of_isBlank {w : Bytes} (h : ∀ c ∈ w, isBlank c) : chr '"' ∉ w :=
  fun hmem => absurd (h _ hmem) (by decide)

theorem raw_eq_of_needle {k tail : Bytes} {s : List Piece} (hk : Plain k)
    (h : needle k <+: chr '"' :: (raw s ++ chr '"' :: tail)) :
    raw s = k ∧ [chr ':'] <+: tail := by
  have hrest : k ++ chr '"' :: [chr ':'] <+: raw s ++ chr '"' :: tail :=
    (List.cons_prefix_cons.mp h).2
  exact raw_eq_of_head hk hrest

/-- The spelling does not start at a closing quote. -/
theorem not_needle_closing {k tail : Bytes} (h : ∀ c ∈ tail.head?, c ∉ k ∧ c ≠ chr '"') :
    ¬ needle k <+: chr '"' :: tail := by
  intro hneedle
  have hrest : k ++ str "\":" <+: tail := (List.cons_prefix_cons.mp hneedle).2
  cases tail with
  | nil => simp [str] at hrest
  | cons c tail =>
      have hc := h c rfl
      cases k with
      | nil => exact hc.2 (List.cons_prefix_cons.mp hrest).1.symm
      | cons a k => exact hc.1 ((List.cons_prefix_cons.mp hrest).1 ▸ List.mem_cons_self)

/-- The quote of an escape is taken for the start of the spelling, and the test on the byte before
it fails. -/
theorem stripLoop_false_match {k done after : Bytes} :
    stripLoop k (done ++ [chr '\\']) (needle k ++ after) =
      stripLoop k (done ++ [chr '\\'] ++ needle k) after := by
  refine stripLoop_of_some ?_
  have hfind : findSub (needle k) (needle k ++ after) = some (needle k ++ after) :=
    findSub_of_head (List.prefix_append _ _)
  have hbefore : (done ++ [chr '\\']).rdropWhile isBlank = done ++ [chr '\\'] :=
    List.rdropWhile_concat_neg _ _ _ (by decide)
  have hne : chr '\\' ≠ chr '{' ∧ chr '\\' ≠ chr ',' := by decide
  simp [stripStep, hfind, hbefore, hne]

theorem quote_notMem_unicode {h₁ h₂ h₃ h₄ : UInt8}
    (h : isHexDigit h₁ ∧ isHexDigit h₂ ∧ isHexDigit h₃ ∧ isHexDigit h₄) :
    chr '"' ∉ [chr '\\', chr 'u', h₁, h₂, h₃, h₄] := by
  have hne : ∀ c, isHexDigit c → chr '"' ≠ c := fun c hc => (ne_of_isHexDigit hc).1.symm
  simp only [List.mem_cons, List.not_mem_nil, or_false, not_or]
  exact ⟨by decide, by decide, hne _ h.1, hne _ h.2.1, hne _ h.2.2.1, hne _ h.2.2.2⟩

/-- The characters of a string, its closing quote and what is taken together with it. -/
theorem stripLoop_raw {k done tail : Bytes} (sep : Bytes) {s : List Piece} (hk : Plain k)
    (hclosing : ∀ d, stripLoop k d (chr '"' :: (sep ++ tail)) =
      stripLoop k (d ++ chr '"' :: sep) tail)
    (hcolon : [chr ':'] <+: sep ++ tail → sep = [chr ':']) :
    stripLoop k done (raw s ++ chr '"' :: (sep ++ tail)) =
      stripLoop k (done ++ (raw s ++ chr '"' :: sep)) tail := by
  induction s generalizing done with
  | nil => exact hclosing done
  | cons p s ih =>
      cases p with
      | plain c hc =>
          have hmem : chr '"' ∉ [c] := by simpa using hc.2.1.symm
          calc
            stripLoop k done ([c] ++ (raw s ++ chr '"' :: (sep ++ tail))) =
                stripLoop k (done ++ [c]) (raw s ++ chr '"' :: (sep ++ tail)) :=
              stripLoop_pass_of_notMem hmem
            _ = stripLoop k (done ++ [c] ++ (raw s ++ chr '"' :: sep)) tail := ih
            _ = _ := by simp [Piece.text]
      | short c hc =>
          have hback : stripLoop k done ([chr '\\'] ++ c :: (raw s ++ chr '"' :: (sep ++ tail))) =
              stripLoop k (done ++ [chr '\\']) (c :: (raw s ++ chr '"' :: (sep ++ tail))) :=
            stripLoop_pass_of_notMem (by decide)
          by_cases hneedle : needle k <+: c :: (raw s ++ chr '"' :: (sep ++ tail))
          · -- the string is a name that ends in an escaped quote and the spelling
            obtain rfl : chr '"' = c := (List.cons_prefix_cons.mp hneedle).1
            obtain ⟨hraw, hprefix⟩ := raw_eq_of_needle hk hneedle
            have hsep := hcolon hprefix
            have hspelled : chr '"' :: (raw s ++ chr '"' :: (sep ++ tail)) = needle k ++ tail := by
              rw [hraw, hsep]
              simp [needle, str, chr]
            calc
              stripLoop k done (raw (.short (chr '"') hc :: s) ++ chr '"' :: (sep ++ tail)) =
                  stripLoop k (done ++ [chr '\\']) (chr '"' :: (raw s ++ chr '"' :: (sep ++ tail))) :=
                hback
              _ = stripLoop k (done ++ [chr '\\'] ++ needle k) tail := by
                rw [hspelled, stripLoop_false_match]
              _ = _ := by
                rw [raw_cons, hraw, hsep]
                simp [needle, Piece.text, str, chr]
          · calc
              stripLoop k done (raw (.short c hc :: s) ++ chr '"' :: (sep ++ tail)) =
                  stripLoop k (done ++ [chr '\\']) (c :: (raw s ++ chr '"' :: (sep ++ tail))) := hback
              _ = stripLoop k (done ++ [chr '\\'] ++ [c]) (raw s ++ chr '"' :: (sep ++ tail)) :=
                stripLoop_pass_byte hneedle
              _ = stripLoop k (done ++ [chr '\\'] ++ [c] ++ (raw s ++ chr '"' :: sep)) tail := ih
              _ = _ := by simp [Piece.text]
      | unicode h₁ h₂ h₃ h₄ hhex =>
          calc
            stripLoop k done
                ([chr '\\', chr 'u', h₁, h₂, h₃, h₄] ++ (raw s ++ chr '"' :: (sep ++ tail))) =
                stripLoop k (done ++ [chr '\\', chr 'u', h₁, h₂, h₃, h₄])
                  (raw s ++ chr '"' :: (sep ++ tail)) :=
              stripLoop_pass_of_notMem (quote_notMem_unicode hhex)
            _ = stripLoop k (done ++ [chr '\\', chr 'u', h₁, h₂, h₃, h₄] ++
                  (raw s ++ chr '"' :: sep)) tail := ih
            _ = _ := by simp [Piece.text]

/-- Where no name is closed. -/
theorem stripLoop_string_end {k done tail : Bytes} {s : List Piece} (hk : Plain k)
    (htail : ∀ c ∈ tail.head?, c ∉ k ∧ c ≠ chr '"' ∧ c ≠ chr ':') :
    stripLoop k done (raw s ++ chr '"' :: tail) = stripLoop k (done ++ (raw s ++ [chr '"'])) tail := by
  refine stripLoop_raw [] hk (fun d => ?_) fun hprefix => ?_
  · exact stripLoop_pass_byte (not_needle_closing fun c hc => ⟨(htail c hc).1, (htail c hc).2.1⟩)
  · obtain ⟨rest, rfl⟩ := hprefix
    exact absurd rfl (htail (chr ':') rfl).2.2

/-- A name and the colon behind it, whether or not it ends like the spelling. -/
theorem stripLoop_string_colon {k done tail : Bytes} {s : List Piece} (hk : Plain k)
    (hcolon : chr ':' ∉ k) :
    stripLoop k done (raw s ++ chr '"' :: chr ':' :: tail) =
      stripLoop k (done ++ (raw s ++ [chr '"', chr ':'])) tail := by
  refine stripLoop_raw [chr ':'] hk (fun d => ?_) fun _ => rfl
  have hclosing : ¬ needle k <+: chr '"' :: chr ':' :: tail := by
    refine not_needle_closing fun c hc => ?_
    cases hc
    exact ⟨hcolon, by decide⟩
  have hpass : stripLoop k (d ++ [chr '"']) ([chr ':'] ++ tail) =
      stripLoop k (d ++ [chr '"'] ++ [chr ':']) tail :=
    stripLoop_pass_of_notMem (by decide)
  calc
    stripLoop k d (chr '"' :: chr ':' :: tail) =
        stripLoop k (d ++ [chr '"']) (chr ':' :: tail) := stripLoop_pass_byte hclosing
    _ = stripLoop k (d ++ [chr '"'] ++ [chr ':']) tail := hpass
    _ = _ := by simp

/-! ### The end of a value -/

/-- A byte that the scan for the end of a value passes over, at any depth. -/
def Inert (c : UInt8) : Prop :=
  c ≠ chr '"' ∧ c ≠ chr '[' ∧ c ≠ chr '{' ∧ c ≠ chr ']' ∧ c ≠ chr '}' ∧ c ≠ chr ','

instance (c : UInt8) : Decidable (Inert c) := inferInstanceAs (Decidable (_ ∧ _))

theorem inert_of_isBlank {c : UInt8} (h : isBlank c = true) : Inert c := by
  obtain rfl | rfl | rfl | rfl := isBlank_cases h <;> decide

theorem inert_of_isWord {c : UInt8} (h : IsWord c) : Inert c := by
  refine ⟨?_, ?_, ?_, ?_, ?_, ?_⟩
  all_goals
    rintro rfl
    exact absurd h (by decide)

theorem valueEnd_inert {d : Nat} {c : UInt8} {t : Bytes} (h : Inert c) :
    valueEnd d false false (c :: t) = valueEnd d false false t := by
  obtain ⟨h1, h2, h3, h4, h5, h6⟩ := h
  simp [valueEnd, h1, h2, h3, h4, h5, h6]

theorem valueEnd_inert_append {d : Nat} {w t : Bytes} (h : ∀ c ∈ w, Inert c) :
    valueEnd d false false (w ++ t) = valueEnd d false false t := by
  induction w with
  | nil => rfl
  | cons c w ih =>
      rw [List.cons_append, valueEnd_inert (h c List.mem_cons_self),
        ih fun b hb => h b (List.mem_cons_of_mem c hb)]

theorem valueEnd_blanks {d : Nat} {t : Bytes} (w : Blanks) :
    valueEnd d false false (w.text ++ t) = valueEnd d false false t :=
  valueEnd_inert_append fun c hc => inert_of_isBlank (w.isBlank c hc)

theorem valueEnd_comma {d : Nat} {first : Bool} {t : Bytes} :
    valueEnd (d + 1) false false (comma first ++ t) = valueEnd (d + 1) false false t := by
  cases first <;> simp [comma, valueEnd, chr]

theorem valueEnd_inside {d : Nat} {c : UInt8} {t : Bytes} (hquote : c ≠ chr '"')
    (hback : c ≠ chr '\\') : valueEnd d true false (c :: t) = valueEnd d true false t := by
  simp [valueEnd, hquote, hback]

theorem valueEnd_escape {d : Nat} {c : UInt8} {t : Bytes} :
    valueEnd d true false (chr '\\' :: c :: t) = valueEnd d true false t := by
  simp [valueEnd]

theorem valueEnd_raw {d : Nat} {s : List Piece} {t : Bytes} :
    valueEnd d true false (raw s ++ chr '"' :: t) = valueEnd d false false t := by
  induction s with
  | nil => simp [valueEnd, chr]
  | cons p s ih =>
      cases p with
      | plain c hc => exact (valueEnd_inside hc.2.1 hc.2.2).trans ih
      | short c hc => exact valueEnd_escape.trans ih
      | unicode h₁ h₂ h₃ h₄ hhex =>
          obtain ⟨hhex₁, hhex₂, hhex₃, hhex₄⟩ := hhex
          simp only [raw_cons, Piece.text, List.cons_append, List.nil_append]
          rw [valueEnd_escape, valueEnd_inside (ne_of_isHexDigit hhex₁).1 (ne_of_isHexDigit hhex₁).2,
            valueEnd_inside (ne_of_isHexDigit hhex₂).1 (ne_of_isHexDigit hhex₂).2,
            valueEnd_inside (ne_of_isHexDigit hhex₃).1 (ne_of_isHexDigit hhex₃).2,
            valueEnd_inside (ne_of_isHexDigit hhex₄).1 (ne_of_isHexDigit hhex₄).2, ih]

theorem valueEnd_string {d : Nat} {s : List Piece} {t : Bytes} :
    valueEnd d false false (stringText s ++ t) = valueEnd d false false t := by
  rw [stringText, List.cons_append, List.append_assoc, List.singleton_append,
    ← valueEnd_raw (s := s) (t := t)]
  simp [valueEnd]

mutual

/-- The scan passes over a value, at any depth. -/
theorem valueEnd_value : ∀ (v : Value) (d : Nat) (t : Bytes),
    valueEnd d false false (v.render ++ t) = valueEnd d false false t
  | .literal l, d, t => valueEnd_inert_append fun c hc => inert_of_isWord (isWord_literal l c hc)
  | .string s, d, t => valueEnd_string
  | .array lead items, d, t => by
      have hinner := valueEnd_items items true d (chr ']' :: t)
      simp only [Value.render, List.cons_append, List.append_assoc, List.nil_append]
      calc
        valueEnd d false false (chr '[' :: (lead.text ++ (items.render true ++ chr ']' :: t))) =
            valueEnd (d + 1) false false (lead.text ++ (items.render true ++ chr ']' :: t)) := by
          simp [valueEnd, chr]
        _ = valueEnd (d + 1) false false (chr ']' :: t) := by rw [valueEnd_blanks, hinner]
        _ = valueEnd d false false t := by simp [valueEnd, chr]
  | .object lead members, d, t => by
      have hinner := valueEnd_members members true d (chr '}' :: t)
      simp only [Value.render, List.cons_append, List.append_assoc, List.nil_append]
      calc
        valueEnd d false false (chr '{' :: (lead.text ++ (members.render true ++ chr '}' :: t))) =
            valueEnd (d + 1) false false (lead.text ++ (members.render true ++ chr '}' :: t)) := by
          simp [valueEnd, chr]
        _ = valueEnd (d + 1) false false (chr '}' :: t) := by rw [valueEnd_blanks, hinner]
        _ = valueEnd d false false t := by simp [valueEnd, chr]

theorem valueEnd_items : ∀ (items : Items) (first : Bool) (d : Nat) (t : Bytes),
    valueEnd (d + 1) false false (items.render first ++ t) = valueEnd (d + 1) false false t
  | .nil, _, d, t => rfl
  | .cons pre v post rest, first, d, t => by
      simp only [Items.render, List.append_assoc]
      rw [valueEnd_comma, valueEnd_blanks, valueEnd_value v, valueEnd_blanks,
        valueEnd_items rest false d t]

theorem valueEnd_members : ∀ (members : Members) (first : Bool) (d : Nat) (t : Bytes),
    valueEnd (d + 1) false false (members.render first ++ t) = valueEnd (d + 1) false false t
  | .nil, _, d, t => rfl
  | .cons pre name mid gap v post rest, first, d, t => by
      simp only [Members.render, List.append_assoc, List.cons_append]
      rw [valueEnd_comma, valueEnd_blanks, valueEnd_string, valueEnd_blanks,
        valueEnd_inert (by decide), valueEnd_blanks, valueEnd_value v, valueEnd_blanks,
        valueEnd_members rest false d t]

end

/-! ### Erasing a member -/

theorem rdropWhile_blanks {d : Bytes} {c : UInt8} (w : Blanks) (hc : isBlank c = false) :
    (d ++ c :: w.text).rdropWhile isBlank = d ++ [c] := by
  have hsplit : d ++ c :: w.text = (d ++ [c]) ++ w.text := by simp
  rw [hsplit, rdropWhile_append_of_pos w.isBlank]
  exact List.rdropWhile_concat_neg _ _ _ (by simp [hc])

section

variable {k d tail : Bytes} {gap post : Blanks} {v : Value} {c : UInt8}

/-- The scan from behind a member's colon. -/
theorem valueEnd_member (hc : c = chr ',' ∨ c = chr '}') :
    valueEnd 0 false false
      ((gap.text ++ (v.render ++ (post.text ++ c :: tail))).dropWhile isBlank) = c :: tail := by
  have hstop : valueEnd 0 false false (c :: tail) = c :: tail := by
    obtain rfl | rfl := hc <;> simp [valueEnd, chr]
  rw [dropWhile_blanks, solid_value v, valueEnd_value, valueEnd_blanks, hstop]

/-- A round on a member that is spelled as the loop looks for it, behind an opening brace or a
comma. -/
theorem stripStep_member {opening : UInt8} {pre : Blanks} (hc : c = chr ',' ∨ c = chr '}')
    (hopening : opening = chr '{' ∨ opening = chr ',') :
    stripStep k (d ++ opening :: pre.text)
        (needle k ++ (gap.text ++ (v.render ++ (post.text ++ c :: tail)))) =
      if opening = chr ',' then
        some (d, (pre.text ++ (needle k ++ (gap.text ++ (v.render ++ (post.text ++ c :: tail))))).drop
          ((needle k).length + gap.text.length + v.render.length + post.text.length))
      else some (d ++ opening :: pre.text, dropComma (c :: tail)) := by
  set after := gap.text ++ (v.render ++ (post.text ++ c :: tail)) with hafter
  have hfind : findSub (needle k) (needle k ++ after) = some (needle k ++ after) :=
    findSub_of_head (List.prefix_append _ _)
  have hblank : isBlank opening = false := by obtain rfl | rfl := hopening <;> decide
  have hbefore : (d ++ opening :: pre.text).rdropWhile isBlank = d ++ [opening] :=
    rdropWhile_blanks pre hblank
  have hend : valueEnd 0 false false (after.dropWhile isBlank) = c :: tail := valueEnd_member hc
  have hvalue : ¬ (after.dropWhile isBlank).length ≤ (c :: tail).length := by
    have hpos : 0 < v.render.length := List.length_pos_iff.mpr (render_ne_nil v)
    rw [hafter, dropWhile_blanks, solid_value v]
    simp only [List.length_append]
    omega
  have hlength : (needle k ++ after).length - (c :: tail).length =
      (needle k).length + gap.text.length + v.render.length + post.text.length := by
    simp only [hafter, List.length_append]
    omega
  have hhead : (d ++ opening :: pre.text).drop (d ++ [opening]).length = pre.text := by simp
  have hmember : ¬ (some opening ≠ some (chr '{') ∧ some opening ≠ some (chr ',')) := by
    obtain rfl | rfl := hopening <;> simp
  unfold stripStep
  rw [hfind]
  dsimp only
  rw [Nat.sub_self, List.take_zero, List.append_nil, hbefore, List.drop_left, hend,
    List.getLast?_concat, if_neg hmember, if_neg hvalue, hlength, hhead, List.dropLast_concat]
  simp only [Option.some.injEq, List.drop_succ_cons]

theorem stripLoop_first_member {pre : Blanks} (hc : c = chr ',' ∨ c = chr '}') :
    stripLoop k (d ++ chr '{' :: pre.text)
        (needle k ++ (gap.text ++ (v.render ++ (post.text ++ c :: tail)))) =
      stripLoop k (d ++ chr '{' :: pre.text) (dropComma (c :: tail)) := by
  refine stripLoop_of_some ?_
  rw [stripStep_member hc (.inl rfl), if_neg (by decide)]

/-- Behind a comma the erased part is short by the blanks before the name, so as many bytes stay of
the blanks behind the value. -/
theorem stripLoop_later_member {pre : Blanks} (hc : c = chr ',' ∨ c = chr '}')
    (hroom : pre.text.length ≤ post.text.length) :
    stripLoop k (d ++ chr ',' :: pre.text)
        (needle k ++ (gap.text ++ (v.render ++ (post.text ++ c :: tail)))) =
      stripLoop k d ((post.last pre.text.length).text ++ c :: tail) := by
  refine stripLoop_of_some ?_
  rw [stripStep_member hc (.inr rfl), if_pos rfl]
  congr 2
  have hsplit : pre.text ++ (needle k ++ (gap.text ++ (v.render ++ (post.text ++ c :: tail)))) =
      (pre.text ++ needle k ++ gap.text ++ v.render ++
        post.text.take (post.text.length - pre.text.length)) ++
      ((post.last pre.text.length).text ++ c :: tail) := by
    conv_lhs => rw [← List.take_append_drop (post.text.length - pre.text.length) post.text]
    simp only [Blanks.last, List.append_assoc]
  rw [hsplit, List.drop_left']
  simp only [List.length_append, List.length_take]
  omega

end

end ExamVan.Utils
