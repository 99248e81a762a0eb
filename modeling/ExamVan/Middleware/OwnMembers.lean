import ExamVan.Lib.JsonSearch
import ExamVan.Middleware.QuestionText

/-!
# A question's own members

Every field of a question is searched for in the whole text of its object. A number or a string is the
first member of that spelling at any depth; the key and the flags stand behind the first colon behind
the first quoted name, whatever these are part of. An array is read as it stands exactly if all the
searches come upon what the object itself says.
-/

namespace ExamVan.Middleware

open ByteString JsonText
open Queue (scanString needle)

/-! ### What an object says -/

def ownValue (members : Members) (k : Bytes) : Option Value :=
  (members.own.find? fun m => decode m.1 = k).map Prod.snd

/-- The number that a literal or a string spells. -/
def numberIn (stod : Bytes → Option ℚ) (spell : List Piece → Bytes) : Value → Option ℚ
  | .literal l => stod l.text
  | .string s => stod (spell s)
  | .array _ _ => none
  | .object _ _ => none

def intOf (n : Number) : Int :=
  if n.minus then -(digitsValue n.whole.text : Int) else digitsValue n.whole.text

def ownType (members : Members) : Bytes :=
  match ownValue members (str "type") with
  | some (.string s) => decode s
  | _ => str "single_choice"

def ownWeight (stod : Bytes → Option ℚ) (members : Members) : ℚ :=
  ((ownValue members (str "weight")).bind (numberIn stod decode)).getD 1

def isTrue : Value → Bool
  | .literal .true => true
  | _ => false

def ownPartial (members : Members) : Bool :=
  (ownValue members (str "partial_scoring")).any isTrue ||
    (ownValue members (str "partial")).any isTrue || ownType members = str "partial"

def ownKey (members : Members) : Option Value :=
  (ownValue members (str "key")).or (ownValue members (str "answer"))

/-- The number of the object is an integer. -/
def HasInteger (members : Members) : Prop :=
  ∃ n, ownValue members (str "number") = some (.literal (.number n)) ∧ n.fraction = none ∧
    n.exponent = none

def UniqueNames (members : Members) : Prop := (members.own.map fun m => decode m.1).Nodup

/-- The question has the fields of the object. -/
structure OwnQuestion (stod : Bytes → Option ℚ) (members : Members) (q : Question) : Prop where
  number : ∀ n, ownValue members (str "number") = some (.literal (.number n)) →
    n.fraction = none → n.exponent = none → q.number.toInt = intOf n
  type : q.type = ownType members
  weight : q.weight = ownWeight stod members
  isPartial : q.isPartial = ownPartial members
  keyRaw : q.keyRaw = ((ownKey members).map Value.render).getD []

/-- An array of objects is read as one question for each object, in order. -/
def ReadsOwn (stod : Bytes → Option ℚ) (objects : List (Blanks × Members)) (json : Bytes) : Prop :=
  List.Forall₂ (fun o q => OwnQuestion stod o.2 q) objects (parseQuestions stod json)

/-! ### What the searches come upon -/

/-- What `std::stod` reads does not depend on blanks behind it, and is no number if it begins with a
bracket. -/
structure ReadsNumbers (stod : Bytes → Option ℚ) : Prop where
  blanks : ∀ (l : Literal) (w : Blanks), stod (l.text ++ w.text) = stod l.text
  brackets : ∀ c t, c = chr '[' ∨ c = chr '{' → stod (c :: t) = none

def firstString (k : Bytes) (v : Value) : Bytes :=
  (v.search (fun name => raw name = k) fun v _ => stringOf v).getD []

def firstNumber (stod : Bytes → Option ℚ) (k : Bytes) (dflt : ℚ) (v : Value) : ℚ :=
  ((v.first fun name => raw name = k).bind (numberIn stod raw)).getD dflt

/-- A conversion to `int`. -/
def truncated (x : ℚ) : Int32 := Int32.ofInt (x.num.tdiv x.den)

def endsValue (c : UInt8) : Bool := c = chr ',' || c = chr '}' || c = chr ']'

def isLiteral : Value → Bool
  | .literal _ => true
  | _ => false

/-- The text of this value comes next, and a literal goes no further. -/
def Begins (v : Value) (u : Bytes) : Prop :=
  ∃ t, u.dropWhile isBlank = v.render ++ t ∧
    (isLiteral v = true → ∀ c ∈ t.head?, endsValue c = true)

/-- No value comes next, or one that is not closed. -/
def Void (u : Bytes) : Prop :=
  match u.dropWhile isBlank with
  | [] => True
  | c :: w => c = chr '"' ∧ scanString w = none ∨
      (c = chr '[' ∨ c = chr '{') ∧ allBrackets.closing 0 false false (c :: w) = none ∨
        endsValue c = true

def Stands (obj k : Bytes) (v : Value) : Prop := ∃ u, Behind obj k u ∧ Begins v u

def NothingStands (obj k : Bytes) : Prop := ∀ u, Behind obj k u → Void u

def TrueStands (obj k : Bytes) : Prop := ∃ u, Behind obj k u ∧ str "true" <+: u.dropWhile isBlank

/-- What is found for the key, or else for the answer, is this value. -/
def KeyStands (v : Value) (key : Option Value) : Prop :=
  let found := firstText (firstString (str "key") v) (firstString (str "answer") v)
  match key with
  | some k => Stands v.render (str "key") k ∨ NothingStands v.render (str "key") ∧
      (Stands v.render (str "answer") k ∨ NothingStands v.render (str "answer") ∧
        found ≠ [] ∧ k.render = chr '"' :: (found ++ [chr '"']))
  | none => NothingStands v.render (str "key") ∧ NothingStands v.render (str "answer") ∧ found = []

/-- Every search in the text of the object comes upon what the object says. -/
structure FieldsStand (stod : Bytes → Option ℚ) (lead : Blanks) (members : Members) : Prop where
  quoted : hasNumber (Value.object lead members).render = true
  number : ∀ n, ownValue members (str "number") = some (.literal (.number n)) →
    n.fraction = none → n.exponent = none →
      (truncated (firstNumber stod (str "number") 0 (.object lead members))).toInt = intOf n
  type : firstText (firstString (str "type") (.object lead members)) (str "single_choice") =
    ownType members
  weight : firstNumber stod (str "weight") 1 (.object lead members) = ownWeight stod members
  isPartial : (TrueStands (Value.object lead members).render (str "partial_scoring") ∨
    TrueStands (Value.object lead members).render (str "partial") ∨
      ownType members = str "partial") ↔ ownPartial members = true
  key : KeyStands (.object lead members) (ownKey members)

section

variable {stod : Bytes → Option ℚ} {k obj u s t : Bytes} {v : Value}

/-! ### Strings and numbers -/

theorem text_value (v : Value) : Text.render ⟨.empty, v, .empty⟩ = v.render := by
  simp [Text.render]

theorem getD_or_ite {α : Type*} (a b : Option α) (d : α) : (a.or b).getD d = a.getD (b.getD d) := by
  cases a <;> rfl

theorem extractFrom_eq (inStr esc : Bool) (s : Bytes) :
    extractFrom k inStr esc s = (searchFrom stringMember k inStr esc s).getD [] := by
  induction s generalizing inStr esc with
  | nil => rfl
  | cons c s ih =>
      rw [extractFrom, searchFrom]
      simp only [ih, getD_or_ite, quotedName]
      congr 1
      split_ifs <;> rfl

theorem doubleFrom_eq (dflt : ℚ) (inStr esc : Bool) (s : Bytes) :
    doubleFrom stod obj k dflt inStr esc s =
      (searchFrom (numberMember stod obj k dflt) k inStr esc s).getD dflt := by
  induction s generalizing inStr esc with
  | nil => rfl
  | cons c s ih =>
      rw [doubleFrom, searchFrom]
      simp only [ih, getD_or_ite, quotedName]
      congr 1
      split_ifs <;> rfl

theorem stringMember_of_not_colonNext (h : ¬ ColonNext t) : stringMember t = none := by
  unfold ColonNext at h
  unfold stringMember
  cases hdrop : t.dropWhile isBlank with
  | nil => rfl
  | cons c u =>
      rw [hdrop] at h
      exact if_neg fun hc => h (by rw [hc]; rfl)

theorem extractStr_eq (hk : Utils.Plain k) (v : Value) : extractStr v.render k = firstString k v := by
  have hsearch : searchFrom stringMember k false false (Text.render ⟨.empty, v, .empty⟩) =
      v.search (fun name => raw name = k) fun v _ => stringOf v :=
    searchFrom_render hk (fun t ht => stringMember_of_not_colonNext ht)
      (fun mid gap v post c t _ => stringMember_value) ⟨.empty, v, .empty⟩
  rw [text_value] at hsearch
  rw [extractStr, extractFrom_eq, hsearch, firstString]

theorem numberMember_of_not_colonNext {dflt : ℚ} (h : ¬ ColonNext t) :
    numberMember stod obj k dflt t = none := by
  unfold ColonNext at h
  unfold numberMember
  rw [Queue.queueIsBlank_eq]
  cases hdrop : t.dropWhile isBlank with
  | nil => rfl
  | cons c u =>
      rw [hdrop] at h
      exact if_neg fun hc => h (by rw [hc]; rfl)

/-- The number of a member, with the string that the search for a string comes upon. -/
theorem numberMember_value (hstod : ReadsNumbers stod) {dflt : ℚ} (mid gap : Blanks) (v : Value)
    (post : Blanks) {c : UInt8} (hc : c = chr ',' ∨ c = chr '}') (t : Bytes) :
    numberMember stod obj k dflt (mid.text ++ chr ':' :: (gap.text ++ (v.render ++
      (post.text ++ c :: t)))) =
        some ((numberIn stod (fun _ => extractStr obj k) v).getD dflt) := by
  have hcolon : isBlank (chr ':') = false := by decide
  obtain ⟨d, w, hrender, hd⟩ := render_head v
  have hblank : isBlank d = false := not_blank_of_head hd
  unfold numberMember
  rw [Queue.queueIsBlank_eq, dropWhile_blanks, List.dropWhile_cons_of_neg (by simp [hcolon])]
  dsimp only
  rw [if_pos rfl, dropWhile_blanks, hrender, List.cons_append,
    List.dropWhile_cons_of_neg (by simp [hblank])]
  dsimp only
  rw [← List.cons_append, ← hrender]
  cases v with
  | literal l =>
      have hword : ∀ b ∈ l.text, (!(b = chr ',' || b = chr '}')) = true := by
        intro b hb
        have hno := (isWord_literal l b hb).2
        have hcomma : b ≠ chr ',' := fun h => hno (h ▸ by decide)
        have hbrace : b ≠ chr '}' := fun h => hno (h ▸ by decide)
        simp [hcomma, hbrace]
      have hpost : ∀ b ∈ post.text, (!(b = chr ',' || b = chr '}')) = true := by
        intro b hb
        have hall : ∀ b, isBlank b = true → (!(b = chr ',' || b = chr '}')) = true :=
          forall_byte (by decide)
        exact hall b (post.isBlank b hb)
      have hquote : d ≠ chr '"' := by
        have hmem : d ∈ l.text := by
          rw [show l.text = d :: w from hrender]
          exact List.mem_cons_self
        exact fun h => (isWord_literal l d hmem).2 (h ▸ by decide)
      have htake : ((Value.literal l).render ++ (post.text ++ c :: t)).takeWhile
          (fun b => !(b = chr ',' || b = chr '}')) = l.text ++ post.text := by
        rw [Value.render, List.takeWhile_append_of_pos hword, List.takeWhile_append_of_pos hpost,
          List.takeWhile_cons_of_neg (by rcases hc with rfl | rfl <;> decide), List.append_nil]
      rw [if_neg hquote, htake, hstod.blanks]
      rfl
  | string s =>
      have hquote : d = chr '"' := (List.cons.inj hrender).1.symm
      rw [if_pos hquote]
      rfl
  | array | object =>
      obtain ⟨rfl, -⟩ := List.cons.inj hrender
      rw [if_neg (by decide), Value.render, List.cons_append,
        List.takeWhile_cons_of_pos (by decide), hstod.brackets]
      · rfl
      · decide

theorem extractDouble_eq (hstod : ReadsNumbers stod) (hk : Utils.Plain k) (dflt : ℚ) (v : Value) :
    extractDouble stod v.render k dflt = firstNumber stod k dflt v := by
  have hsearch : searchFrom (numberMember stod v.render k dflt) k false false
      (Text.render ⟨.empty, v, .empty⟩) = v.search (fun name => raw name = k) fun w _ =>
        some ((numberIn stod (fun _ => extractStr v.render k) w).getD dflt) :=
    searchFrom_render hk (fun t ht => numberMember_of_not_colonNext ht)
      (fun mid gap w post c t hc => numberMember_value hstod mid gap w post hc t)
      ⟨.empty, v, .empty⟩
  rw [text_value] at hsearch
  have hmap : (v.search (fun name => raw name = k) fun w _ =>
      some ((numberIn stod (fun _ => extractStr v.render k) w).getD dflt)) =
        (v.first fun name => raw name = k).map fun w =>
          (numberIn stod (fun _ => extractStr v.render k) w).getD dflt :=
    v.search_map (fun w _ => some w) _
  rw [extractDouble, doubleFrom_eq, hsearch, hmap, firstNumber, Value.first]
  cases hfirst : v.search (fun name => raw name = k) fun v _ => some v with
  | none => rfl
  | some w =>
      cases w with
      | string s =>
          have hstring : extractStr v.render k = raw s := by
            have hof : stringOf (.string s) = some (raw s) := rfl
            rw [extractStr_eq hk, firstString, Value.search_first hof v hfirst]
            rfl
          rw [hstring]
          rfl
      | literal | array | object => rfl

/-! ### What stands behind a name -/

theorem append_of_scanString {r : Bytes × Bytes} (h : scanString s = some r) :
    s = r.1 ++ chr '"' :: r.2 := by
  fun_induction scanString s generalizing r with
  | case1 => cases h
  | case2 => cases h
  | case3 d t ih =>
      obtain ⟨r', hr', rfl⟩ := Option.map_eq_some_iff.mp h
      rw [ih hr']
      rfl
  | case4 =>
      cases h
      rfl
  | case5 c rest hback hquote ih =>
      obtain ⟨r', hr', rfl⟩ := Option.map_eq_some_iff.mp h
      rw [ih hr']
      rfl

theorem behind_unique {u' : Bytes} (h : Behind obj k u) (h' : Behind obj k u') : u = u' := by
  obtain ⟨between, hfind, hbetween⟩ := h
  obtain ⟨between', hfind', hbetween'⟩ := h'
  have hrest : between ++ chr ':' :: u = between' ++ chr ':' :: u' :=
    List.append_cancel_left (Option.some.inj (hfind.symm.trans hfind'))
  have hcolon : some (chr ':' :: u) = some (chr ':' :: u') := by
    rw [← findByte_eq_append hbetween, hrest, findByte_eq_append hbetween']
  exact (List.cons.inj (Option.some.inj hcolon)).2

/-- Either there is a place behind the name or the search for one fails. -/
theorem behind_or (obj k : Bytes) : (∃ u, Behind obj k u) ∨
    ∀ t, findSub (needle k) obj = some t → findByte (· = chr ':') (t.drop (needle k).length) = none := by
  refine Classical.or_iff_not_imp_right.mpr fun hno => ?_
  push Not at hno
  obtain ⟨t, hfind, hcolon⟩ := hno
  obtain ⟨-, -, rest, rfl⟩ := exists_of_findSub hfind
  obtain ⟨w, hw⟩ := Option.ne_none_iff_exists'.mp hcolon
  rw [List.drop_left] at hw
  obtain ⟨between, c, u, rfl, -, hc, hbetween⟩ := exists_of_findByte hw
  obtain rfl : c = chr ':' := by simpa using hc
  exact ⟨u, between, hfind, fun hmem => by simpa using hbetween _ hmem⟩

theorem extractRawValue_of_nowhere (h : ¬ ∃ u, Behind obj k u) : extractRawValue obj k = [] := by
  have hno := (behind_or obj k).resolve_left h
  unfold extractRawValue
  cases hfind : findSub (needle k) obj with
  | none => rfl
  | some t => simp only [hno t hfind]

theorem rawText_of_begins (h : Begins v u) : rawText u = v.render := by
  obtain ⟨t, hu, hends⟩ := h
  cases v with
  | string w => exact rawText_string hu
  | array lead items =>
      have hclosing := Brackets.closing_array (b := allBrackets) rfl lead items t
      unfold rawText
      rw [hu, Value.render, List.cons_append]
      simp only [bracketed_eq]
      rw [if_neg (by decide), if_pos (by decide), ← List.cons_append, ← Value.render, hclosing]
  | object lead members =>
      have hclosing := Brackets.closing_object (b := allBrackets) rfl lead members t
      unfold rawText
      rw [hu, Value.render, List.cons_append]
      simp only [bracketed_eq]
      rw [if_neg (by decide), if_pos (by decide), ← List.cons_append, ← Value.render, hclosing]
  | literal l =>
      obtain ⟨c, w, hl⟩ := List.exists_cons_of_ne_nil (literal_ne_nil l)
      have hword := isWord_literal l c (hl ▸ List.mem_cons_self)
      have hne : ∀ e ∈ str "\"[\x7b", c ≠ e := fun e he heq =>
        hword.2 (heq ▸ (by decide : ∀ e ∈ str "\"[\x7b", e ∈ str "\"[]\x7b\x7d,") e he)
      have hgoes : ∀ b ∈ l.text, (!(b = chr ',' || b = chr '}' || b = chr ']')) = true := by
        intro b hb
        have hno := (isWord_literal l b hb).2
        have hnot : ∀ e ∈ str ",\x7d]", b ≠ e := fun e he heq =>
          hno (heq ▸ (by decide : ∀ e ∈ str ",\x7d]", e ∈ str "\"[]\x7b\x7d,") e he)
        simp [hnot (chr ',') (by decide), hnot (chr '}') (by decide), hnot (chr ']') (by decide)]
      have hstops : t.takeWhile (fun c => !(c = chr ',' || c = chr '}' || c = chr ']')) = [] := by
        cases t with
        | nil => rfl
        | cons b t => exact List.takeWhile_cons_of_neg (by
            have hb : endsValue b = true := hends rfl b rfl
            simp only [endsValue] at hb
            rw [hb]
            decide)
      unfold rawText
      rw [hu, Value.render, hl, List.cons_append]
      dsimp only
      rw [if_neg (hne _ (by decide)), if_neg, ← List.cons_append, ← hl,
        List.takeWhile_append_of_pos hgoes, hstops, List.append_nil]
      exact fun h => h.elim (hne _ (by decide)) (hne _ (by decide))

theorem isWord_of_isLiteral {c : UInt8} {w : Bytes} (hv : isLiteral v = true) (h : v.render = c :: w) :
    IsWord c := by
  cases v with
  | literal l =>
      have hl : l.text = c :: w := h
      exact isWord_literal l c (hl ▸ List.mem_cons_self)
  | string | array | object => cases hv

theorem begins_of_rawText (h : rawText u = v.render) : Begins v u := by
  have hne := render_ne_nil v
  unfold rawText at h
  unfold Begins
  cases hu : u.dropWhile isBlank with
  | nil =>
      rw [hu] at h
      exact absurd h.symm hne
  | cons c w =>
      rw [hu] at h
      dsimp only at h
      split_ifs at h with hquote hbracket
      · cases hscan : scanString w with
        | none =>
            rw [hscan] at h
            exact absurd h.symm hne
        | some r =>
            rw [hscan] at h
            have htext : c :: w = v.render ++ r.2 := by
              rw [← h, append_of_scanString hscan]
              simp
            refine ⟨r.2, htext, fun hlit => ?_⟩
            exact absurd (isWord_of_isLiteral hlit h.symm) (by rw [hquote]; decide)
      · rw [bracketed_eq] at h
        cases hclosing : allBrackets.closing 0 false false (c :: w) with
        | none =>
            rw [hclosing] at h
            exact absurd h.symm hne
        | some r =>
            rw [hclosing] at h
            have htext : c :: w = v.render ++ r.2 := h ▸ Brackets.append_of_closing hclosing
            refine ⟨r.2, htext, fun hlit => ?_⟩
            obtain ⟨d, w', hrender⟩ := List.exists_cons_of_ne_nil hne
            obtain rfl : c = d := by
              rw [hrender] at htext
              exact (List.cons.inj htext).1
            have hword := isWord_of_isLiteral hlit hrender
            rcases hbracket with rfl | rfl <;> exact absurd hword (by decide)
      · refine ⟨(c :: w).dropWhile fun c => !(c = chr ',' || c = chr '}' || c = chr ']'), ?_, ?_⟩
        · rw [← h]
          exact List.takeWhile_append_dropWhile.symm
        · intro _ b hb
          have hstop := List.head?_dropWhile_not
            (fun c => !(c = chr ',' || c = chr '}' || c = chr ']')) (c :: w)
          rw [Option.mem_def.mp hb] at hstop
          exact (Bool.not_eq_false' _).mp hstop

theorem rawText_eq_render_iff : rawText u = v.render ↔ Begins v u :=
  ⟨begins_of_rawText, rawText_of_begins⟩

theorem rawText_eq_nil_iff : rawText u = [] ↔ Void u := by
  unfold rawText Void
  cases hu : u.dropWhile isBlank with
  | nil => exact iff_of_true rfl trivial
  | cons c w =>
      dsimp only
      split_ifs with hquote hbracket
      · rw [hquote]
        cases hscan : scanString w with
        | none => exact iff_of_true rfl (.inl ⟨rfl, rfl⟩)
        | some r => exact iff_of_false (List.cons_ne_nil _ _) (by simp [endsValue, chr])
      · rw [bracketed_eq]
        cases hclosing : allBrackets.closing 0 false false (c :: w) with
        | none => exact iff_of_true rfl (.inr (.inl ⟨hbracket, rfl⟩))
        | some r =>
            refine iff_of_false (Brackets.ne_nil_of_closing hclosing) ?_
            rcases hbracket with rfl | rfl <;> simp [endsValue, chr]
      · change ((c :: w).takeWhile fun b => !endsValue b) = [] ↔ _
        cases hc : endsValue c with
        | true => exact iff_of_true (List.takeWhile_cons_of_neg (by simp [hc])) (.inr (.inr rfl))
        | false =>
            rw [List.takeWhile_cons_of_pos (by simp [hc])]
            exact iff_of_false (List.cons_ne_nil _ _) (by simp [hquote, not_or.mp hbracket])

theorem extractRawValue_eq_render_iff : extractRawValue obj k = v.render ↔ Stands obj k v := by
  by_cases h : ∃ u, Behind obj k u
  · obtain ⟨u, hu⟩ := h
    rw [extractRawValue_of_behind hu, rawText_eq_render_iff]
    exact ⟨fun hv => ⟨u, hu, hv⟩, fun ⟨u', hu', hv⟩ => behind_unique hu hu' ▸ hv⟩
  · rw [extractRawValue_of_nowhere h]
    exact iff_of_false (render_ne_nil v).symm fun ⟨u, hu, _⟩ => h ⟨u, hu⟩

theorem extractRawValue_eq_nil_iff : extractRawValue obj k = [] ↔ NothingStands obj k := by
  by_cases h : ∃ u, Behind obj k u
  · obtain ⟨u, hu⟩ := h
    rw [extractRawValue_of_behind hu, rawText_eq_nil_iff]
    exact ⟨fun hv u' hu' => behind_unique hu hu' ▸ hv, fun hv => hv u hu⟩
  · exact iff_of_true (extractRawValue_of_nowhere h) fun u hu => absurd ⟨u, hu⟩ h

/-- The flag is looked for behind the first colon from the name on. -/
theorem jsonBoolField_iff (hk : chr ':' ∉ k) : jsonBoolField obj k = true ↔ TrueStands obj k := by
  have hneedle : ∀ rest, findByte (· = chr ':') (needle k ++ rest) = findByte (· = chr ':') rest := by
    intro rest
    refine findByte_append fun c hc => decide_eq_false ?_
    rintro rfl
    simp only [needle, List.mem_cons, List.mem_append, List.not_mem_nil, or_false] at hc
    rcases hc with hc | hc | hc
    · exact absurd hc (by decide)
    · exact hk hc
    · exact absurd hc (by decide)
  unfold jsonBoolField TrueStands
  by_cases h : ∃ u, Behind obj k u
  · obtain ⟨u, hu⟩ := h
    obtain ⟨between, hfind, hbetween⟩ := id hu
    simp only [hfind, hneedle, findByte_eq_append hbetween, List.tail_cons, Queue.queueIsBlank_eq,
      decide_eq_true_eq]
    exact ⟨fun htrue => ⟨u, hu, htrue⟩, fun ⟨u', hu', htrue⟩ => behind_unique hu hu' ▸ htrue⟩
  · refine iff_of_false ?_ fun ⟨u, hu, _⟩ => h ⟨u, hu⟩
    have hno := (behind_or obj k).resolve_left h
    cases hfind : findSub (needle k) obj with
    | none => exact Bool.false_ne_true
    | some t =>
        obtain ⟨-, -, rest, rfl⟩ := exists_of_findSub hfind
        have hnone := hno _ hfind
        rw [List.drop_left] at hnone
        simp [hneedle, hnone]

/-! ### Questions -/

/-- The text of the key is what stands behind its name, or else behind the other name, or else the
string that was found, between quotes. -/
theorem keyRaw_iff (v : Value) (key : Option Value) :
    (parseQuestion stod v.render).keyRaw = (key.map Value.render).getD [] ↔ KeyStands v key := by
  have hfound : (parseQuestion stod v.render).key =
      firstText (firstString (str "key") v) (firstString (str "answer") v) := by
    rw [← extractStr_eq (by decide), ← extractStr_eq (by decide), parseQuestion]
  have hraw : (parseQuestion stod v.render).keyRaw =
      if firstText (extractRawValue v.render (str "key")) (extractRawValue v.render (str "answer")) =
          [] ∧ (parseQuestion stod v.render).key ≠ [] then
        chr '"' :: ((parseQuestion stod v.render).key ++ [chr '"'])
      else firstText (extractRawValue v.render (str "key"))
        (extractRawValue v.render (str "answer")) := rfl
  rw [hraw, hfound]
  unfold KeyStands
  generalize firstText (firstString (str "key") v) (firstString (str "answer") v) = found
  cases key with
  | none =>
      simp only [← extractRawValue_eq_nil_iff, Option.map_none, Option.getD_none, firstText]
      split_ifs <;> simp_all
  | some w =>
      have hne := render_ne_nil w
      simp only [← extractRawValue_eq_nil_iff, ← extractRawValue_eq_render_iff, Option.map_some,
        Option.getD_some, firstText]
      split_ifs <;> grind

theorem number_eq (hstod : ReadsNumbers stod) (v : Value) : (parseQuestion stod v.render).number =
    truncated (firstNumber stod (str "number") 0 v) := by
  have hzero : ((0 : Int32).toInt : ℚ) = 0 := by decide +kernel
  rw [← extractDouble_eq hstod (by decide), ← hzero]
  rfl

theorem type_eq (stod : Bytes → Option ℚ) (v : Value) : (parseQuestion stod v.render).type =
    firstText (firstString (str "type") v) (str "single_choice") := by
  rw [← extractStr_eq (by decide), parseQuestion]

theorem isPartial_iff (stod : Bytes → Option ℚ) (v : Value) : (parseQuestion stod v.render).isPartial = true ↔
    TrueStands v.render (str "partial_scoring") ∨ TrueStands v.render (str "partial") ∨
      (parseQuestion stod v.render).type = str "partial" := by
  rw [← jsonBoolField_iff (by decide), ← jsonBoolField_iff (by decide), ← or_assoc]
  simp only [parseQuestion, Bool.or_eq_true, decide_eq_true_eq]

/-- One object. -/
theorem ownQuestion_iff (hstod : ReadsNumbers stod) (lead : Blanks) (members : Members) :
    hasNumber (Value.object lead members).render = true ∧
        OwnQuestion stod members (parseQuestion stod (Value.object lead members).render) ↔
      FieldsStand stod lead members := by
  have hweight : (parseQuestion stod (Value.object lead members).render).weight =
      firstNumber stod (str "weight") 1 (.object lead members) :=
    extractDouble_eq hstod (by decide) 1 _
  have hpartial := isPartial_iff stod (.object lead members)
  constructor
  · rintro ⟨hquoted, h⟩
    rw [h.type, h.isPartial] at hpartial
    exact {
      quoted := hquoted
      number := fun n hn hf he => number_eq hstod _ ▸ h.number n hn hf he
      type := type_eq stod _ ▸ h.type
      weight := hweight ▸ h.weight
      isPartial := hpartial.symm
      key := (keyRaw_iff _ _).mp h.keyRaw }
  · intro h
    have htype := (type_eq stod (.object lead members)).trans h.type
    rw [htype, h.isPartial] at hpartial
    exact ⟨h.quoted, {
      number := fun n hn hf he => number_eq hstod _ ▸ h.number n hn hf he
      type := htype
      weight := hweight.trans h.weight
      isPartial := Bool.eq_iff_iff.mpr hpartial
      keyRaw := (keyRaw_iff _ _).mpr h.key }⟩

/-- The rounds over the elements of an array take out its objects. -/
theorem scan_objects {objects : List (Blanks × Members)} {items : Items}
    (h : items.values = objects.map fun o => .object o.1 o.2) {skip : Bytes} (hskip : chr '{' ∉ skip)
    (first : Bool) {tail : Bytes} (htail : chr '{' ∉ tail) :
    scan objectRound (objects.length + 1) (skip ++ (items.render first ++ tail)) =
      some (objects.map fun o => (Value.object o.1 o.2).render) := by
  have hblanks : ∀ w : Blanks, chr '{' ∉ w.text := fun w hmem => absurd (w.isBlank _ hmem) (by decide)
  induction objects generalizing items skip first with
  | nil =>
      cases items with
      | nil =>
          refine Scan.of_none (objectRound_none ?_)
          simp [Items.render, hskip, htail]
      | cons => cases h
  | cons o objects ih =>
      cases items with
      | nil => cases h
      | cons pre v post rest =>
          obtain ⟨rfl, hrest⟩ := List.cons.inj h
          have hcomma : chr '{' ∉ comma first := by cases first <;> decide
          have hbefore : chr '{' ∉ skip ++ (comma first ++ pre.text) := by
            simp [hskip, hcomma, hblanks]
          have htext : skip ++ ((Items.cons pre (.object o.1 o.2) post rest).render first ++ tail) =
              (skip ++ (comma first ++ pre.text)) ++ ((Value.object o.1 o.2).render ++
                (post.text ++ (rest.render false ++ tail))) := by
            simp [Items.render]
          rw [htext, List.length_cons, Scan.of_some (objectRound_object hbefore o.1 o.2 _),
            ih hrest (hblanks post) false]
          rfl

theorem scan_array {objects : List (Blanks × Members)} (lead first trail : Blanks) {items : Items}
    (h : items.values = objects.map fun o => .object o.1 o.2) :
    scan objectRound ((Text.render ⟨lead, .array first items, trail⟩).length + 1)
      (Text.render ⟨lead, .array first items, trail⟩) =
        some (objects.map fun o => (Value.object o.1 o.2).render) := by
  have hblanks : ∀ w : Blanks, chr '{' ∉ w.text := fun w hmem => absurd (w.isBlank _ hmem) (by decide)
  have htext : Text.render ⟨lead, .array first items, trail⟩ =
      (lead.text ++ chr '[' :: first.text) ++ (items.render true ++ (chr ']' :: trail.text)) := by
    simp [Text.render, Value.render]
  have hopen : chr '{' ≠ chr '[' := by decide
  have hclose : chr '{' ≠ chr ']' := by decide
  have hskip : chr '{' ∉ lead.text ++ chr '[' :: first.text := by simp [hblanks, hopen]
  have htail : chr '{' ∉ chr ']' :: trail.text := by simp [hblanks, hclose]
  rw [htext]
  exact scan_objectRound (scan_objects h hskip true htail)

theorem parseQuestions_array {objects : List (Blanks × Members)} {lead trail first : Blanks}
    {items : Items} (h : items.values = objects.map fun o => .object o.1 o.2) :
    parseQuestions stod (Text.render ⟨lead, .array first items, trail⟩) =
      ((objects.map fun o => (Value.object o.1 o.2).render).filter hasNumber).map
        (parseQuestion stod) := by
  rw [parseQuestions, scan_array lead first trail h]
  rfl

/-- In an array all objects are questions and each has a property exactly if each object is a question
and has it. -/
theorem forall₂_filter_iff {α β γ : Type*} {R : α → γ → Prop} {f : α → β} {p : β → Bool} {g : β → γ}
    {l : List α} : List.Forall₂ R l (((l.map f).filter p).map g) ↔
      ∀ a ∈ l, p (f a) = true ∧ R a (g (f a)) := by
  constructor
  · intro h
    have hlength := h.length_eq
    have hall : ∀ b ∈ l.map f, p b = true := by
      rw [← List.length_filter_eq_length_iff]
      simpa using hlength.symm
    rw [List.filter_eq_self.mpr hall, List.forall₂_map_right_iff, List.forall₂_map_right_iff,
      List.forall₂_same] at h
    exact fun a ha => ⟨hall _ (List.mem_map_of_mem ha), h a ha⟩
  · intro h
    have hall : ∀ b ∈ l.map f, p b = true := by
      intro b hb
      obtain ⟨a, ha, rfl⟩ := List.mem_map.mp hb
      exact (h a ha).1
    rw [List.filter_eq_self.mpr hall, List.forall₂_map_right_iff, List.forall₂_map_right_iff,
      List.forall₂_same]
    exact fun a ha => (h a ha).2

/-- An array of objects is read as it stands exactly if every search in every object comes upon what
the object says. -/
theorem readsOwn_iff (hstod : ReadsNumbers stod) {objects : List (Blanks × Members)}
    {lead trail first : Blanks} {items : Items}
    (h : items.values = objects.map fun o => .object o.1 o.2) :
    ReadsOwn stod objects (Text.render ⟨lead, .array first items, trail⟩) ↔
      ∀ o ∈ objects, FieldsStand stod o.1 o.2 := by
  rw [ReadsOwn, parseQuestions_array h, forall₂_filter_iff]
  exact forall₂_congr fun o _ => ownQuestion_iff hstod o.1 o.2

end

/-- The digits that a text begins with, as a number. -/
def leadingNumber (s : Bytes) : Option ℚ :=
  let digits := s.takeWhile isDigit
  if digits = [] then none else some (digitsValue digits)

theorem readsNumbers_leadingNumber : ReadsNumbers leadingNumber where
  blanks l w := by
    have hdigits : w.text.takeWhile isDigit = [] := by
      cases hw : w.text with
      | nil => rfl
      | cons c t =>
          have hno : ∀ c, isBlank c = true → ¬ isDigit c = true := forall_byte (by decide)
          exact List.takeWhile_cons_of_neg (hno c (w.isBlank c (hw ▸ List.mem_cons_self)))
    have htake : (l.text ++ w.text).takeWhile isDigit = l.text.takeWhile isDigit := by
      induction l.text with
      | nil => exact hdigits
      | cons c t ih => simp only [List.cons_append, List.takeWhile_cons, ih]
    rw [leadingNumber, leadingNumber, htake]
  brackets c t hc := by
    have hno : ¬ isDigit c = true := by rcases hc with rfl | rfl <;> decide
    rw [leadingNumber, List.takeWhile_cons_of_neg hno]
    rfl

def plainMember (name : String) (v : Value) : List Piece × Value :=
  (Queue.escapedPieces (str name), v)

theorem isDigit_one : ∀ c ∈ str "1", isDigit c := by decide

theorem one_ne_nil : str "1" ≠ [] := by decide

theorem no_leading_zero_one : (str "1").head? = some (chr '0') → (str "1").length = 1 := by decide

def one : Value := .literal (.number
  ⟨false, ⟨str "1", isDigit_one, one_ne_nil⟩, no_leading_zero_one, none, none⟩)

/-- A question whose only choice has a key of its own, before the key of the question. -/
def choiceFirst : Members :=
  let choice := Members.compact [plainMember "key" (.string (Queue.escapedPieces (str "A")))]
  .compact [plainMember "number" one,
    plainMember "choices" (.array .empty (.cons .empty (.object .empty choice) .empty .nil)),
    plainMember "key" (.string (Queue.escapedPieces (str "B")))]

theorem readsOwn_choiceFirst :
    ReadsOwn leadingNumber [(.empty, choiceFirst)]
        (Text.render ⟨.empty, .array .empty (.cons .empty (.object .empty choiceFirst) .empty .nil),
          .empty⟩) ↔
      ∀ o ∈ [(Blanks.empty, choiceFirst)], FieldsStand leadingNumber o.1 o.2 :=
  readsOwn_iff readsNumbers_leadingNumber rfl

/-- The key of a choice that stands before the key of the question is taken for it. -/
theorem not_readsOwn : ¬ ∀ stod, ReadsNumbers stod → ∀ (objects : List (Blanks × Members))
    (lead trail first : Blanks) (items : Items),
    (items.values = objects.map fun o => .object o.1 o.2) →
    (∀ o ∈ objects, HasInteger o.2 ∧ UniqueNames o.2) →
      ReadsOwn stod objects (Text.render ⟨lead, .array first items, trail⟩) := by
  intro h
  have hinteger : HasInteger choiceFirst := ⟨_, rfl, rfl, rfl⟩
  have hunique : UniqueNames choiceFirst := by
    unfold UniqueNames
    decide +kernel
  have hread := h leadingNumber readsNumbers_leadingNumber [(.empty, choiceFirst)] .empty .empty .empty
    (.cons .empty (.object .empty choiceFirst) .empty .nil) rfl
    (List.forall_mem_singleton.mpr ⟨hinteger, hunique⟩)
  have hquestions : parseQuestions leadingNumber (Text.render ⟨.empty, .array .empty
      (.cons .empty (.object .empty choiceFirst) .empty .nil), .empty⟩) =
        (([(Blanks.empty, choiceFirst)].map fun o => (Value.object o.1 o.2).render).filter
          hasNumber).map (parseQuestion leadingNumber) := parseQuestions_array rfl
  rw [ReadsOwn, hquestions] at hread
  have hkey := (forall₂_filter_iff.mp hread _ List.mem_cons_self).2.keyRaw
  revert hkey
  decide +kernel

end ExamVan.Middleware
