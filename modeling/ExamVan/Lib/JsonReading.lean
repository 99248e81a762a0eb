import ExamVan.Lib.JsonText

/-!
# A text denotes one datum

Two derivations of the same text denote the same data. A value is read off the front of a text
whose rest begins with what may follow a value, and determines that rest.
-/

namespace JsonText

open ByteString

/-! ### Where a token ends -/

/-- The bytes of numbers and of the words `null`, `true` and `false`. -/
def IsWord (c : UInt8) : Prop := isBlank c = false ∧ c ∉ str "\"[]\x7b\x7d,"

instance (c : UInt8) : Decidable (IsWord c) := inferInstanceAs (Decidable (_ ∧ _))

theorem ne_of_isHexDigit {c : UInt8} (h : isHexDigit c = true) : c ≠ chr '"' ∧ c ≠ chr '\\' := by
  constructor
  all_goals
    rintro rfl
    exact absurd h (by decide)

/-- What may follow a value. -/
def Follows (tail : Bytes) : Prop :=
  ∀ c ∈ tail.head?, isBlank c = true ∨ c = chr ',' ∨ c = chr ']' ∨ c = chr '}'

theorem isBlank_cases {c : UInt8} (h : isBlank c = true) :
    c = chr ' ' ∨ c = chr '\t' ∨ c = chr '\r' ∨ c = chr '\n' := by
  simpa [isBlank, or_assoc] using h

theorem isWord_of_isDigit {c : UInt8} (h : isDigit c = true) : IsWord c := by
  constructor
  · refine Bool.eq_false_iff.mpr fun hblank => ?_
    obtain rfl | rfl | rfl | rfl := isBlank_cases hblank <;> exact absurd h (by decide)
  · intro hmem
    have hnone : ∀ b ∈ str "\"[]\x7b\x7d,", ¬ isDigit b = true := by decide
    exact hnone c hmem h

theorem isWord_literal (l : Literal) : ∀ c ∈ l.text, IsWord c := by
  cases l with
  | null | true | false => decide
  | number n =>
      intro c hc
      have hdigits : ∀ (d : Digits), c ∈ d.text → IsWord c := fun d hd => isWord_of_isDigit (d.isDigit c hd)
      have hsign : ∀ sign, c ∈ signText sign → IsWord c := by
        intro sign hsign
        cases sign with
        | none => exact absurd hsign List.not_mem_nil
        | some minus => cases minus <;> rw [List.mem_singleton.mp hsign] <;> decide
      simp only [Literal.text, Number.text, List.mem_append] at hc
      obtain ((hminus | hwhole) | hfraction) | hexponent := hc
      · split at hminus
        · rw [List.mem_singleton.mp hminus]
          decide
        · exact absurd hminus List.not_mem_nil
      · exact hdigits _ hwhole
      · split at hfraction
        · exact absurd hfraction List.not_mem_nil
        · obtain rfl | hd := List.mem_cons.mp hfraction
          · decide
          · exact hdigits _ hd
      · split at hexponent
        · exact absurd hexponent List.not_mem_nil
        · obtain rfl | hrest := List.mem_cons.mp hexponent
          · split <;> decide
          · exact (List.mem_append.mp hrest).elim (hsign _) (hdigits _)

theorem literal_ne_nil (l : Literal) : l.text ≠ [] := by
  cases l with
  | null | true | false => decide
  | number n => simp [Literal.text, Number.text, n.whole.ne_nil]

/-- A word, an opening quote or an opening bracket. -/
theorem render_head (v : Value) :
    ∃ c s, v.render = c :: s ∧ (IsWord c ∨ c = chr '"' ∨ c = chr '[' ∨ c = chr '{') := by
  cases v with
  | literal l =>
      obtain ⟨c, s, hs⟩ := List.exists_cons_of_ne_nil (literal_ne_nil l)
      exact ⟨c, s, hs, .inl (isWord_literal l c (hs ▸ List.mem_cons_self))⟩
  | string s => exact ⟨_, _, rfl, .inr (.inl rfl)⟩
  | array lead items => exact ⟨_, _, rfl, .inr (.inr (.inl rfl))⟩
  | object lead members => exact ⟨_, _, rfl, .inr (.inr (.inr rfl))⟩

theorem render_ne_nil (v : Value) : v.render ≠ [] := by
  obtain ⟨c, s, hs, -⟩ := render_head v
  simp [hs]

section

variable {t t' : Bytes}

theorem follows_nil : Follows [] := nofun

theorem follows_blanks (w : Blanks) (h : Follows t) : Follows (w.text ++ t) := by
  intro c hc
  cases hw : w.text with
  | nil =>
      rw [hw] at hc
      exact h c hc
  | cons b rest =>
      obtain rfl : b = c := by simpa [hw] using hc
      exact .inl (w.isBlank b (hw ▸ List.mem_cons_self))

theorem items_head (items : Items) (t : Bytes) :
    ∃ c rest, items.render false ++ chr ']' :: t = c :: rest ∧ (c = chr ',' ∨ c = chr ']') := by
  cases items with
  | nil => exact ⟨_, _, rfl, .inr rfl⟩
  | cons => exact ⟨_, _, rfl, .inl rfl⟩

theorem members_head (members : Members) (t : Bytes) :
    ∃ c rest, members.render false ++ chr '}' :: t = c :: rest ∧ (c = chr ',' ∨ c = chr '}') := by
  cases members with
  | nil => exact ⟨_, _, rfl, .inr rfl⟩
  | cons => exact ⟨_, _, rfl, .inl rfl⟩

theorem follows_items (items : Items) (t : Bytes) : Follows (items.render false ++ chr ']' :: t) := by
  obtain ⟨c, rest, heq, hc⟩ := items_head items t
  rw [heq]
  intro b hb
  cases hb
  exact .inr (hc.imp_right .inl)

theorem follows_members (members : Members) (t : Bytes) :
    Follows (members.render false ++ chr '}' :: t) := by
  obtain ⟨c, rest, heq, hc⟩ := members_head members t
  rw [heq]
  intro b hb
  cases hb
  exact .inr (hc.imp_right .inr)

theorem not_isWord_of_follows (h : Follows t) : ∀ c ∈ t.head?, ¬ IsWord c := by
  intro c hc hword
  obtain hblank | rfl | rfl | rfl := h c hc
  · exact absurd hblank (by simp [hword.1])
  all_goals exact hword.2 (by decide)

/-! ### Tokens -/

theorem takeWhile_word {w : Bytes} (hw : ∀ c ∈ w, IsWord c) (ht : Follows t) :
    (w ++ t).takeWhile (fun c => decide (IsWord c)) = w := by
  rw [List.takeWhile_append_of_pos (by simpa using hw)]
  cases t with
  | nil => simp
  | cons c t => simp [not_isWord_of_follows ht c rfl]

/-- A literal ends where its bytes end. -/
theorem literal_unique {w w' : Bytes} (hw : ∀ c ∈ w, IsWord c) (hw' : ∀ c ∈ w', IsWord c)
    (ht : Follows t) (ht' : Follows t') (h : w ++ t = w' ++ t') : w = w' ∧ t = t' := by
  have htake : w = w' := by rw [← takeWhile_word hw ht, h, takeWhile_word hw' ht']
  subst htake
  exact ⟨rfl, List.append_cancel_left h⟩

/-- A text that does not begin with a blank. -/
def Solid (x : Bytes) : Prop := x.dropWhile isBlank = x

theorem solid_cons {c : UInt8} {s : Bytes} (hc : isBlank c = false) : Solid (c :: s) :=
  List.dropWhile_cons_of_neg (by simp [hc])

theorem not_blank_of_head {c : UInt8} (h : IsWord c ∨ c = chr '"' ∨ c = chr '[' ∨ c = chr '{') :
    isBlank c = false := by
  obtain hword | rfl | rfl | rfl := h
  · exact hword.1
  all_goals decide

theorem solid_value (v : Value) : Solid (v.render ++ t) := by
  obtain ⟨c, s, hs, hc⟩ := render_head v
  rw [hs]
  exact solid_cons (not_blank_of_head hc)

theorem dropWhile_blanks (w : Blanks) (x : Bytes) :
    (w.text ++ x).dropWhile isBlank = x.dropWhile isBlank :=
  List.dropWhile_append_of_pos w.isBlank

/-- Blanks end where something else begins. -/
theorem blanks_unique {w w' : Blanks} {x x' : Bytes} (hx : Solid x) (hx' : Solid x')
    (h : w.text ++ x = w'.text ++ x') : x = x' := by
  have hdrop : x.dropWhile isBlank = x'.dropWhile isBlank := by
    rw [← dropWhile_blanks w, h, dropWhile_blanks w']
  rw [← hx, hdrop, hx']

section

variable {first : Bool} {w w' pre pre' : Blanks} {x x' : Bytes}

/-- The elements of an array or an object begin at the same place. -/
theorem element_unique (hx : Solid x) (hx' : Solid x')
    (h : w.text ++ (comma first ++ (pre.text ++ x)) = w'.text ++ (comma first ++ (pre'.text ++ x'))) :
    x = x' := by
  cases first with
  | true =>
      have hblanks : (w ++ pre).text ++ x = (w' ++ pre').text ++ x' := by simpa [comma] using h
      exact blanks_unique hx hx' hblanks
  | false =>
      have hcomma : ∀ s : Bytes, Solid (chr ',' :: s) := fun s => solid_cons (by decide)
      have hrest := blanks_unique (hcomma _) (hcomma _) h
      exact blanks_unique hx hx' (List.cons.inj hrest).2

/-- An array or an object has an element in both texts or in none. -/
theorem element_ne_closing {close c : UInt8} {s : Bytes} (hclose : isBlank close = false)
    (hcomma : close ≠ chr ',') (hc : isBlank c = false) (hne : close ≠ c) :
    w.text ++ close :: x ≠ w'.text ++ (comma first ++ (pre.text ++ c :: s)) := by
  intro h
  cases first with
  | true =>
      have h : w.text ++ close :: x = (w' ++ pre).text ++ c :: s := by simpa [comma] using h
      exact hne (List.cons.inj (blanks_unique (solid_cons hclose) (solid_cons hc) h)).1
  | false =>
      have hrest := blanks_unique (solid_cons hclose) (solid_cons (by decide)) h
      exact hcomma (List.cons.inj hrest).1

end

theorem piece_unique {p p' : Piece} {s s' : List Piece}
    (h : raw (p :: s) ++ t = raw (p' :: s') ++ t') : p = p' ∧ raw s ++ t = raw s' ++ t' := by
  cases p with
  | plain c hc =>
      cases p' with
      | plain c' hc' =>
          obtain ⟨rfl, hrest⟩ := List.cons.inj h
          exact ⟨rfl, hrest⟩
      | short | unicode => exact absurd (List.cons.inj h).1 hc.2.2
  | short c hc =>
      cases p' with
      | plain c' hc' => exact absurd (List.cons.inj h).1.symm hc'.2.2
      | short c' hc' =>
          obtain ⟨rfl, hrest⟩ := List.cons.inj (List.cons.inj h).2
          exact ⟨rfl, hrest⟩
      | unicode =>
          obtain ⟨rfl, -⟩ := List.cons.inj (List.cons.inj h).2
          exact absurd hc (by decide)
  | unicode h₁ h₂ h₃ h₄ hhex =>
      cases p' with
      | plain c' hc' => exact absurd (List.cons.inj h).1.symm hc'.2.2
      | short c' hc' =>
          obtain ⟨rfl, -⟩ := List.cons.inj (List.cons.inj h).2
          exact absurd hc' (by decide)
      | unicode =>
          injection h with _ h
          injection h with _ h
          injection h with e₁ h
          injection h with e₂ h
          injection h with e₃ h
          injection h with e₄ h
          subst e₁ e₂ e₃ e₄
          exact ⟨rfl, h⟩

theorem raw_unique {s s' : List Piece} (h : raw s ++ chr '"' :: t = raw s' ++ chr '"' :: t') :
    s = s' ∧ t = t' := by
  induction s generalizing s' with
  | nil =>
      cases s' with
      | nil => exact ⟨rfl, (List.cons.inj h).2⟩
      | cons p' s' =>
          cases p' with
          | plain c hc => exact absurd (List.cons.inj h).1.symm hc.2.1
          | short | unicode => exact absurd (List.cons.inj h).1 (by decide)
  | cons p s ih =>
      cases s' with
      | nil =>
          cases p with
          | plain c hc => exact absurd (List.cons.inj h).1 hc.2.1
          | short | unicode => exact absurd (List.cons.inj h).1 (by decide)
      | cons p' s' =>
          have hpiece : p = p' ∧ raw s ++ chr '"' :: t = raw s' ++ chr '"' :: t' := piece_unique h
          obtain ⟨rfl, hrest⟩ := hpiece
          obtain ⟨rfl, rfl⟩ := ih hrest
          exact ⟨rfl, rfl⟩

/-- A string that begins like a plain name and its closing quote is that name. -/
theorem raw_eq_of_head {k x tail : Bytes} {s : List Piece} (hk : chr '"' ∉ k ∧ chr '\\' ∉ k)
    (h : k ++ chr '"' :: x <+: raw s ++ chr '"' :: tail) : raw s = k ∧ x <+: tail := by
  induction s generalizing k with
  | nil =>
      cases k with
      | nil => exact ⟨rfl, (List.cons_prefix_cons.mp h).2⟩
      | cons a k => exact absurd (List.cons_prefix_cons.mp h).1 fun ha => hk.1 (ha ▸ List.mem_cons_self)
  | cons p s ih =>
      cases p with
      | plain c hc =>
          cases k with
          | nil => exact absurd (List.cons_prefix_cons.mp h).1.symm hc.2.1
          | cons a k =>
              obtain ⟨rfl, hrest⟩ := List.cons_prefix_cons.mp h
              have hkplain : chr '"' ∉ k ∧ chr '\\' ∉ k :=
                ⟨fun hmem => hk.1 (List.mem_cons_of_mem a hmem),
                  fun hmem => hk.2 (List.mem_cons_of_mem a hmem)⟩
              obtain ⟨hraw, hx⟩ := ih hkplain hrest
              exact ⟨by simp [Piece.text, hraw], hx⟩
      | short | unicode =>
          cases k with
          | nil => exact absurd (List.cons_prefix_cons.mp h).1 (by decide)
          | cons a k => exact absurd (List.cons_prefix_cons.mp h).1 fun ha => hk.2 (ha ▸ List.mem_cons_self)

theorem stringText_unique {s s' : List Piece} (h : stringText s ++ t = stringText s' ++ t') :
    s = s' ∧ t = t' := by
  refine raw_unique ?_
  simpa [stringText] using h

end

/-! ### Values -/

theorem literal_ne {l : Literal} {c : UInt8} {s t : Bytes} (hc : ¬ IsWord c) :
    l.text ++ t ≠ c :: s := by
  obtain ⟨b, rest, hb⟩ := List.exists_cons_of_ne_nil (literal_ne_nil l)
  intro h
  rw [hb] at h
  obtain ⟨rfl, -⟩ := List.cons.inj h
  exact hc (isWord_literal l b (hb ▸ List.mem_cons_self))

theorem head_ne_closing {c : UInt8} (h : IsWord c ∨ c = chr '"' ∨ c = chr '[' ∨ c = chr '{') :
    chr ']' ≠ c := by
  rintro rfl
  revert h
  decide

mutual

theorem value_unique : ∀ (v v' : Value) {t t' : Bytes}, Follows t → Follows t' →
    v.render ++ t = v'.render ++ t' → v.data = v'.data ∧ t = t'
  | .literal l, .literal l', t, t', ht, ht', h => by
      obtain ⟨htext, hrest⟩ := literal_unique (isWord_literal l) (isWord_literal l') ht ht' h
      exact ⟨congrArg Data.literal htext, hrest⟩
  | .string s, .string s', t, t', _, _, h => by
      obtain ⟨rfl, hrest⟩ := stringText_unique h
      exact ⟨rfl, hrest⟩
  | .array lead items, .array lead' items', t, t', _, _, h => by
      have hitems : lead.text ++ (items.render true ++ chr ']' :: t) =
          lead'.text ++ (items'.render true ++ chr ']' :: t') := by
        simpa [Value.render] using h
      obtain ⟨hdata, hrest⟩ := items_unique items items' hitems
      exact ⟨congrArg Data.array hdata, hrest⟩
  | .object lead members, .object lead' members', t, t', _, _, h => by
      have hmembers : lead.text ++ (members.render true ++ chr '}' :: t) =
          lead'.text ++ (members'.render true ++ chr '}' :: t') := by
        simpa [Value.render] using h
      obtain ⟨hdata, hrest⟩ := members_unique members members' hmembers
      exact ⟨congrArg Data.object hdata, hrest⟩
  | .literal l, .string s, t, t', _, _, h => absurd h (literal_ne (by decide))
  | .literal l, .array lead items, t, t', _, _, h => absurd h (literal_ne (by decide))
  | .literal l, .object lead members, t, t', _, _, h => absurd h (literal_ne (by decide))
  | .string s, .literal l, t, t', _, _, h => absurd h.symm (literal_ne (by decide))
  | .array lead items, .literal l, t, t', _, _, h => absurd h.symm (literal_ne (by decide))
  | .object lead members, .literal l, t, t', _, _, h => absurd h.symm (literal_ne (by decide))
  | .string s, .array lead items, t, t', _, _, h => absurd (List.cons.inj h).1 (by decide)
  | .string s, .object lead members, t, t', _, _, h => absurd (List.cons.inj h).1 (by decide)
  | .array lead items, .string s, t, t', _, _, h => absurd (List.cons.inj h).1 (by decide)
  | .array lead items, .object lead' members, t, t', _, _, h => absurd (List.cons.inj h).1 (by decide)
  | .object lead members, .string s, t, t', _, _, h => absurd (List.cons.inj h).1 (by decide)
  | .object lead members, .array lead' items, t, t', _, _, h => absurd (List.cons.inj h).1 (by decide)

theorem items_unique : ∀ (items items' : Items) {first : Bool} {w w' : Blanks} {t t' : Bytes},
    w.text ++ (items.render first ++ chr ']' :: t) =
      w'.text ++ (items'.render first ++ chr ']' :: t') →
    items.data = items'.data ∧ t = t'
  | .nil, .nil, first, w, w', t, t', h =>
      ⟨rfl, (List.cons.inj (blanks_unique (solid_cons (by decide)) (solid_cons (by decide)) h)).2⟩
  | .nil, .cons pre v post rest, first, w, w', t, t', h => by
      obtain ⟨c, s, hs, hc⟩ := render_head v
      simp only [Items.render, List.append_assoc, List.nil_append, hs, List.cons_append] at h
      exact absurd h (element_ne_closing (by decide) (by decide) (not_blank_of_head hc) (head_ne_closing hc))
  | .cons pre v post rest, .nil, first, w, w', t, t', h => by
      obtain ⟨c, s, hs, hc⟩ := render_head v
      simp only [Items.render, List.append_assoc, List.nil_append, hs, List.cons_append] at h
      exact absurd h.symm
        (element_ne_closing (by decide) (by decide) (not_blank_of_head hc) (head_ne_closing hc))
  | .cons pre v post rest, .cons pre' v' post' rest', first, w, w', t, t', h => by
      simp only [Items.render, List.append_assoc] at h
      obtain ⟨hv, hafter⟩ := value_unique v v' (follows_blanks post (follows_items rest t))
        (follows_blanks post' (follows_items rest' t'))
        (element_unique (solid_value v) (solid_value v') h)
      obtain ⟨hrest, ht⟩ := items_unique rest rest' hafter
      exact ⟨congrArg₂ List.cons hv hrest, ht⟩

theorem members_unique : ∀ (members members' : Members) {first : Bool} {w w' : Blanks}
    {t t' : Bytes},
    w.text ++ (members.render first ++ chr '}' :: t) =
      w'.text ++ (members'.render first ++ chr '}' :: t') →
    members.data = members'.data ∧ t = t'
  | .nil, .nil, first, w, w', t, t', h =>
      ⟨rfl, (List.cons.inj (blanks_unique (solid_cons (by decide)) (solid_cons (by decide)) h)).2⟩
  | .nil, .cons pre name mid gap v post rest, first, w, w', t, t', h => by
      simp only [Members.render, stringText, List.append_assoc, List.nil_append, List.cons_append] at h
      exact absurd h (element_ne_closing (by decide) (by decide) (by decide) (by decide))
  | .cons pre name mid gap v post rest, .nil, first, w, w', t, t', h => by
      simp only [Members.render, stringText, List.append_assoc, List.nil_append, List.cons_append] at h
      exact absurd h.symm (element_ne_closing (by decide) (by decide) (by decide) (by decide))
  | .cons pre name mid gap v post rest, .cons pre' name' mid' gap' v' post' rest', first, w, w',
      t, t', h => by
      have hname : ∀ (name : List Piece) (x : Bytes), Solid (stringText name ++ x) :=
        fun name x => solid_cons (by decide)
      have hcolon : ∀ x : Bytes, Solid (chr ':' :: x) := fun x => solid_cons (by decide)
      simp only [Members.render, List.append_assoc, List.cons_append] at h
      obtain ⟨rfl, hmid⟩ := stringText_unique (element_unique (hname _ _) (hname _ _) h)
      have hgap := (List.cons.inj (blanks_unique (hcolon _) (hcolon _) hmid)).2
      obtain ⟨hv, hafter⟩ := value_unique v v' (follows_blanks post (follows_members rest t))
        (follows_blanks post' (follows_members rest' t'))
        (blanks_unique (solid_value v) (solid_value v') hgap)
      obtain ⟨hrest, ht⟩ := members_unique rest rest' hafter
      exact ⟨congrArg₂ List.cons (congrArg _ hv) hrest, ht⟩

end

theorem data_unique {q q' : Text} (h : q.render = q'.render) : q.data = q'.data := by
  have hfollows : ∀ w : Blanks, Follows w.text := fun w => by
    simpa using follows_blanks w follows_nil
  simp only [Text.render, List.append_assoc] at h
  exact (value_unique q.v q'.v (hfollows q.trail) (hfollows q'.trail)
    (blanks_unique (solid_value q.v) (solid_value q'.v) h)).1

end JsonText
