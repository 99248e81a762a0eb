import ExamVan.Utils.StripLoop

/-!
# Reading the key of a question

`extract_str` looks for a quoted name outside of strings that a colon and a string follow, with any
blanks between them, and takes the characters of the string as they are spelled. In a JSON text that
is the first member of this spelling, in the order of the text and at any depth, whose value is a
string.
-/

namespace ExamVan.Middleware

open ByteString JsonText Utils

/-- The text up to the closing quote. -/
def rawString : Bytes → Option Bytes
  | [] => none
  | [c] => if c = chr '"' then some [] else none
  | c :: d :: s =>
      if c = chr '\\' then (rawString s).map fun r => c :: d :: r
      else if c = chr '"' then some []
      else (rawString (d :: s)).map (c :: ·)

/-- The string behind a colon. -/
def stringMember (t : Bytes) : Option Bytes :=
  match t.dropWhile isBlank with
  | [] => none
  | c :: u =>
      if c = chr ':' then
        match u.dropWhile isBlank with
        | [] => none
        | d :: w => if d = chr '"' then rawString w else none
      else none

def quotedName (k : Bytes) : Bytes := chr '"' :: (k ++ [chr '"'])

/-- The loop of `extract_str`. -/
def extractFrom (k : Bytes) : Bool → Bool → Bytes → Bytes
  | _, _, [] => []
  | inStr, esc, c :: s =>
      let found :=
        if !inStr && !esc && decide (quotedName k <+: c :: s) then stringMember (s.drop (k.length + 1))
        else none
      found.getD
        (if esc then extractFrom k inStr false s
        else if c = chr '\\' ∧ inStr then extractFrom k inStr true s
        else if c = chr '"' then extractFrom k (!inStr) false s
        else extractFrom k inStr false s)

def extractStr (obj k : Bytes) : Bytes := extractFrom k false false obj

/-! ### The member that is read -/

def stringOf : Value → Option Bytes
  | .string s => some (raw s)
  | _ => none

mutual

/-- The first member with a string for its value whose name passes a test. -/
def findMember (p : List Piece → Bool) : Value → Option (List Piece × Bytes)
  | .literal _ => none
  | .string _ => none
  | .array _ items => findInItems p items
  | .object _ members => findInMembers p members

def findInItems (p : List Piece → Bool) : Items → Option (List Piece × Bytes)
  | .nil => none
  | .cons _ v _ rest => (findMember p v).or (findInItems p rest)

def findInMembers (p : List Piece → Bool) : Members → Option (List Piece × Bytes)
  | .nil => none
  | .cons _ name _ _ v _ rest =>
      ((if p name then stringOf v else none).map fun r => (name, r)).or
        ((findMember p v).or (findInMembers p rest))

end

def spelledAs (k : Bytes) (name : List Piece) : Bool := raw name = k

def namedAs (k : Bytes) (name : List Piece) : Bool := decode name = k

/-! ### Strings -/

section

variable {k t : Bytes} {c : UInt8}

theorem rawString_plain (hquote : c ≠ chr '"') (hback : c ≠ chr '\\') (t : Bytes) :
    rawString (c :: t) = (rawString t).map (c :: ·) := by
  cases t with
  | nil => simp [rawString, hquote]
  | cons d t => simp [rawString, hquote, hback]

theorem rawString_escape (c : UInt8) (t : Bytes) :
    rawString (chr '\\' :: c :: t) = (rawString t).map fun r => chr '\\' :: c :: r := by
  simp [rawString]

theorem rawString_raw {s : List Piece} : rawString (raw s ++ chr '"' :: t) = some (raw s) := by
  induction s with
  | nil => cases t <;> simp [rawString, chr]
  | cons p s ih =>
      cases p with
      | plain c hc =>
          rw [raw_cons, Piece.text, List.singleton_append, List.cons_append,
            rawString_plain hc.2.1 hc.2.2, ih]
          rfl
      | short c hc =>
          simp only [raw_cons, Piece.text, List.cons_append, List.nil_append]
          rw [rawString_escape, ih]
          rfl
      | unicode h₁ h₂ h₃ h₄ hhex =>
          have hplain : ∀ c u, isHexDigit c → rawString (c :: u) = (rawString u).map (c :: ·) :=
            fun c u hc => rawString_plain (ne_of_isHexDigit hc).1 (ne_of_isHexDigit hc).2 u
          simp only [raw_cons, Piece.text, List.cons_append, List.nil_append]
          rw [rawString_escape, hplain _ _ hhex.1, hplain _ _ hhex.2.1, hplain _ _ hhex.2.2.1,
            hplain _ _ hhex.2.2.2, ih]
          rfl

theorem stringMember_blanks (w : Blanks) : stringMember (w.text ++ t) = stringMember t := by
  rw [stringMember, dropWhile_blanks, stringMember]

theorem stringMember_of_ne (hblank : isBlank c = false) (hc : c ≠ chr ':') :
    stringMember (c :: t) = none := by
  rw [stringMember, List.dropWhile_cons_of_neg (by simpa using hblank)]
  exact if_neg hc

/-- What stands behind the name of a member. -/
theorem stringMember_value {mid gap : Blanks} {v : Value} :
    stringMember (mid.text ++ chr ':' :: (gap.text ++ (v.render ++ t))) = stringOf v := by
  rw [stringMember_blanks, stringMember, List.dropWhile_cons_of_neg (by decide)]
  dsimp only
  rw [if_pos rfl, dropWhile_blanks]
  cases v with
  | string s =>
      have htext : stringText s ++ t = chr '"' :: (raw s ++ chr '"' :: t) := by simp [stringText]
      rw [Value.render, htext, List.dropWhile_cons_of_neg (by decide)]
      exact (if_pos rfl).trans rawString_raw
  | literal l =>
      obtain ⟨c, s, hs⟩ := List.exists_cons_of_ne_nil (literal_ne_nil l)
      have hquote : c ≠ chr '"' :=
        (inert_of_isWord (isWord_literal l c (hs ▸ List.mem_cons_self))).1
      rw [solid_value, Value.render, hs]
      exact if_neg hquote
  | array | object =>
      simp only [Value.render, List.cons_append]
      rw [List.dropWhile_cons_of_neg (by decide)]
      exact if_neg (by decide)

/-! ### The loop on one token -/

theorem extractFrom_pass (hc : c ≠ chr '"') :
    extractFrom k false false (c :: t) = extractFrom k false false t := by
  have hname : ¬ quotedName k <+: c :: t := fun h => hc (List.cons_prefix_cons.mp h).1.symm
  simp [extractFrom, hname, hc]

theorem extractFrom_pass_append {w : Bytes} (h : chr '"' ∉ w) :
    extractFrom k false false (w ++ t) = extractFrom k false false t := by
  induction w with
  | nil => rfl
  | cons c w ih =>
      rw [List.mem_cons, not_or] at h
      rw [List.cons_append, extractFrom_pass (Ne.symm h.1), ih h.2]

theorem extractFrom_blanks (w : Blanks) :
    extractFrom k false false (w.text ++ t) = extractFrom k false false t :=
  extractFrom_pass_append (quote_notMem_of_isBlank w.isBlank)

theorem extractFrom_inside (hquote : c ≠ chr '"') (hback : c ≠ chr '\\') :
    extractFrom k true false (c :: t) = extractFrom k true false t := by
  simp [extractFrom, hquote, hback]

theorem extractFrom_escape : extractFrom k true false (chr '\\' :: c :: t) =
    extractFrom k true false t := by
  simp [extractFrom]

theorem extractFrom_raw {s : List Piece} :
    extractFrom k true false (raw s ++ chr '"' :: t) = extractFrom k false false t := by
  induction s with
  | nil => simp [extractFrom, chr]
  | cons p s ih =>
      cases p with
      | plain c hc => exact (extractFrom_inside hc.2.1 hc.2.2).trans ih
      | short c hc => exact extractFrom_escape.trans ih
      | unicode h₁ h₂ h₃ h₄ hhex =>
          have hplain : ∀ c u, isHexDigit c → extractFrom k true false (c :: u) =
              extractFrom k true false u :=
            fun c u hc => extractFrom_inside (ne_of_isHexDigit hc).1 (ne_of_isHexDigit hc).2
          simp only [raw_cons, Piece.text, List.cons_append, List.nil_append]
          rw [extractFrom_escape, hplain _ _ hhex.1, hplain _ _ hhex.2.1, hplain _ _ hhex.2.2.1,
            hplain _ _ hhex.2.2.2, ih]

/-- A string is read as a name if it is spelled like one and a string member follows. -/
theorem extractFrom_string {s : List Piece} (hk : Plain k) :
    extractFrom k false false (stringText s ++ t) =
      (if spelledAs k s then stringMember t else none).getD (extractFrom k false false t) := by
  have htext : stringText s ++ t = chr '"' :: (raw s ++ chr '"' :: t) := by simp [stringText]
  have hbegins : quotedName k <+: chr '"' :: (raw s ++ chr '"' :: t) ↔ raw s = k := by
    constructor
    · intro h
      exact (raw_eq_of_head (x := []) hk (List.cons_prefix_cons.mp h).2).1
    · rintro rfl
      exact ⟨t, by simp [quotedName]⟩
  have hdrop : raw s = k → (raw s ++ chr '"' :: t).drop (k.length + 1) = t := by
    rintro rfl
    rw [← List.singleton_append, ← List.append_assoc]
    exact List.drop_left' (by simp)
  have hquote : extractFrom k false false (chr '"' :: (raw s ++ chr '"' :: t)) =
      (if quotedName k <+: chr '"' :: (raw s ++ chr '"' :: t) then
        stringMember ((raw s ++ chr '"' :: t).drop (k.length + 1)) else none).getD
      (extractFrom k true false (raw s ++ chr '"' :: t)) := by
    simp [extractFrom]
  rw [htext, hquote, extractFrom_raw]
  by_cases hs : raw s = k
  · have hspelled : spelledAs k s = true := decide_eq_true hs
    rw [if_pos (hbegins.mpr hs), if_pos hspelled, hdrop hs]
  · have hspelled : ¬ spelledAs k s = true := by simpa [spelledAs] using hs
    rw [if_neg fun h => hs (hbegins.mp h), if_neg hspelled]

/-! ### Texts -/

theorem stringMember_end : stringMember [] = none := rfl

theorem stringMember_items (items : Items) (t : Bytes) :
    stringMember (items.render false ++ chr ']' :: t) = none := by
  cases items with
  | nil => exact stringMember_of_ne (by decide) (by decide)
  | cons => exact stringMember_of_ne (by decide) (by decide)

theorem stringMember_members (members : Members) (t : Bytes) :
    stringMember (members.render false ++ chr '}' :: t) = none := by
  cases members with
  | nil => exact stringMember_of_ne (by decide) (by decide)
  | cons => exact stringMember_of_ne (by decide) (by decide)

theorem extractFrom_comma (first : Bool) :
    extractFrom k false false (comma first ++ t) = extractFrom k false false t :=
  extractFrom_pass_append (by cases first <;> decide)

mutual

theorem extractFrom_value (hk : Plain k) : ∀ (v : Value) (t : Bytes), stringMember t = none →
    extractFrom k false false (v.render ++ t) =
      ((findMember (spelledAs k) v).map Prod.snd).getD (extractFrom k false false t)
  | .literal l, t, _ => extractFrom_pass_append fun hmem => (inert_of_isWord (isWord_literal l _ hmem)).1 rfl
  | .string s, t, ht => by
      rw [Value.render, extractFrom_string hk, ht, ite_self]
      rfl
  | .array lead items, t, _ => by
      simp only [Value.render, List.cons_append, List.append_assoc, List.nil_append]
      rw [extractFrom_pass (by decide), extractFrom_blanks, extractFrom_items hk items true t,
        extractFrom_pass (by decide)]
      rfl
  | .object lead members, t, _ => by
      simp only [Value.render, List.cons_append, List.append_assoc, List.nil_append]
      rw [extractFrom_pass (by decide), extractFrom_blanks, extractFrom_members hk members true t,
        extractFrom_pass (by decide)]
      rfl

theorem extractFrom_items (hk : Plain k) : ∀ (items : Items) (first : Bool) (t : Bytes),
    extractFrom k false false (items.render first ++ chr ']' :: t) =
      ((findInItems (spelledAs k) items).map Prod.snd).getD
        (extractFrom k false false (chr ']' :: t))
  | .nil, _, t => rfl
  | .cons pre v post rest, first, t => by
      have hnone : stringMember (post.text ++ (rest.render false ++ chr ']' :: t)) = none := by
        rw [stringMember_blanks, stringMember_items]
      simp only [Items.render, List.append_assoc]
      rw [extractFrom_comma, extractFrom_blanks, extractFrom_value hk v _ hnone, extractFrom_blanks,
        extractFrom_items hk rest false t, findInItems]
      cases findMember (spelledAs k) v <;> rfl

theorem extractFrom_members (hk : Plain k) : ∀ (members : Members) (first : Bool) (t : Bytes),
    extractFrom k false false (members.render first ++ chr '}' :: t) =
      ((findInMembers (spelledAs k) members).map Prod.snd).getD
        (extractFrom k false false (chr '}' :: t))
  | .nil, _, t => rfl
  | .cons pre name mid gap v post rest, first, t => by
      have hnone : stringMember (post.text ++ (rest.render false ++ chr '}' :: t)) = none := by
        rw [stringMember_blanks, stringMember_members]
      simp only [Members.render, List.append_assoc, List.cons_append]
      rw [extractFrom_comma, extractFrom_blanks, extractFrom_string hk, stringMember_value,
        extractFrom_blanks, extractFrom_pass (by decide), extractFrom_blanks,
        extractFrom_value hk v _ hnone, extractFrom_blanks, extractFrom_members hk rest false t,
        findInMembers]
      cases (if spelledAs k name then stringOf v else none) with
      | some r => rfl
      | none => cases findMember (spelledAs k) v <;> rfl

end

/-- In every JSON text `extract_str` reads the first string member of this spelling. -/
theorem extractStr_render (hk : Plain k) (q : Text) :
    extractStr q.render k = ((findMember (spelledAs k) q.v).map Prod.snd).getD [] := by
  have hnone : stringMember (q.trail.text ++ []) = none := by rw [stringMember_blanks, stringMember_end]
  have htext : q.render = q.lead.text ++ (q.v.render ++ (q.trail.text ++ [])) := by
    simp [Text.render]
  rw [extractStr, htext, extractFrom_blanks, extractFrom_value hk q.v _ hnone, extractFrom_blanks]
  rfl

end

end ExamVan.Middleware
