import ExamVan.Middleware.FullMarks
import ExamVan.Middleware.QuestionText
import ExamVan.Middleware.Spelling

/-!
# The exact answer

The key of a question with one answer is the first token of its text. The tokenizer is made for lists:
it looks for brackets first and drops every escape, so a key with either is compared as something else.
-/

namespace ExamVan.Middleware

open ByteString ExamToken JsonText

/-- An object with a number, a type with one answer and a string for its key. -/
structure TextQuestion (members : Members) (s : List Piece) : Prop where
  number : ∃ m ∈ members.own, decode m.1 = str "number"
  type : ∃ name t, (name, Value.string t) ∈ members.own ∧ decode name = str "type" ∧
    decode t ∈ [str "single_choice", str "true_false", str "short_answer"]
  key : ∃ name, (name, Value.string s) ∈ members.own ∧ decode name = str "key"
  ink : ∃ c ∈ decode s, isSpace c = false

/-- The searches in the text of the object come upon the key, and upon no type of another kind. -/
structure FindsKey (v : Value) (s : List Piece) : Prop where
  type : ∀ m ∈ findMember (spelledAs (str "type")) v,
    isSetType m.2 = false ∧ m.2 ≠ str "matching"
  key : ∃ u t, Behind v.render (str "key") u ∧ u.dropWhile isBlank = stringText s ++ t
  keyText : (findMember (spelledAs (str "key")) v).map Prod.snd = some (raw s)

/-- Brackets enclose nothing but separators, in a string without escapes. Without brackets, no word is
lost or joined to the next. -/
structure Readable (s : List Piece) : Prop where
  enclosed : ∀ y, Enclosed (chr '[') (chr ']') (raw s) y →
    (∀ c ∈ y, isTokenGap c = true) ∧ ∀ p ∈ s, isPlain p = true
  unenclosed : (∀ y, ¬ Enclosed (chr '[') (chr ']') (raw s) y) →
    (∀ p ∈ s, isPlainOrBlank p = true) ∧ joined false false s = false

/-- The question is read, and the answer gets its full weight. -/
def ScoresFull (stod : Bytes → Option ℚ) (json answer : Bytes) : Prop :=
  ∃ q, parseQuestions stod json = [q] ∧
    ∃ d ∈ evaluateQuestionDetail q answer, d.status = .correct ∧ d.earned = q.weight

section

variable {s : List Piece} {c : UInt8} {t x y : Bytes}

/-! ### Bytes of a string -/

theorem mem_decodeFrom (high : Option Nat) {h : 0x20 ≤ c ∧ c ≠ chr '"' ∧ c ≠ chr '\\'}
    (hmem : Piece.plain c h ∈ s) : c ∈ decodeFrom high s := by
  induction s generalizing high with
  | nil => cases hmem
  | cons p s ih =>
      rcases List.mem_cons.mp hmem with rfl | hrest
      · simp [decodeFrom]
      · cases p with
        | plain d hd => simp [decodeFrom, ih none hrest]
        | short d hd => simp [decodeFrom, ih none hrest]
        | unicode h₁ h₂ h₃ h₄ hhex =>
            cases high with
            | none =>
                simp only [decodeFrom]
                split_ifs
                · exact ih _ hrest
                · exact List.mem_append_right _ (ih _ hrest)
            | some u =>
                simp only [decodeFrom]
                split_ifs <;> exact List.mem_append_right _ (ih _ hrest)

/-- A closing bracket in the text of a string stands for itself. -/
theorem closing_mem_decode (hmem : chr ']' ∈ raw s) : chr ']' ∈ decode s := by
  obtain ⟨p, hp, hin⟩ := List.mem_flatMap.mp hmem
  cases p with
  | plain c hc =>
      obtain rfl : chr ']' = c := List.mem_singleton.mp hin
      exact mem_decodeFrom none hp
  | short c hc =>
      have hall : ∀ c ∈ str "\"\\/bfnrt", chr ']' ∉ [chr '\\', c] := by decide
      exact absurd hin (hall c hc)
  | unicode h₁ h₂ h₃ h₄ hhex =>
      have hne : ∀ c, JsonText.isHexDigit c = true → chr ']' ≠ c := by
        rintro _ hc rfl
        exact absurd hc (by decide)
      have hall : ∀ c ∈ [chr '\\', chr 'u', h₁, h₂, h₃, h₄], chr ']' ≠ c := by
        simp only [List.forall_mem_cons]
        exact ⟨by decide, by decide, hne _ hhex.1, hne _ hhex.2.1, hne _ hhex.2.2.1,
          hne _ hhex.2.2.2, nofun⟩
      exact absurd rfl (hall _ hin)

/-- A quote in the text of a string stands behind a backslash. -/
theorem backslash_before_quote (h : raw s = x ++ chr '"' :: t) : x.getLast? = some (chr '\\') := by
  have hlast : ∀ (a : UInt8) {z : Bytes}, z.getLast? = some (chr '\\') →
      (a :: z).getLast? = some (chr '\\') := by
    intro a z hz
    rw [List.getLast?_cons, hz, Option.getD_some]
  induction s generalizing x with
  | nil => simp at h
  | cons p s ih =>
      rw [raw_cons] at h
      cases p with
      | plain c hc =>
          cases x with
          | nil => exact absurd (List.cons.inj h).1 hc.2.1
          | cons a x =>
              obtain ⟨rfl, hrest⟩ := List.cons.inj h
              exact hlast _ (ih hrest)
      | short c hc =>
          cases x with
          | nil => exact absurd (List.cons.inj h).1 (by decide)
          | cons a x =>
              obtain ⟨rfl, hrest⟩ := List.cons.inj h
              cases x with
              | nil => rfl
              | cons b x => exact hlast _ (hlast _ (ih (List.cons.inj hrest).2))
      | unicode h₁ h₂ h₃ h₄ hhex =>
          have hne := fun c (hc : JsonText.isHexDigit c = true) => (ne_of_isHexDigit hc).1
          obtain ⟨hh₁, hh₂, hh₃, hh₄⟩ := hhex
          have hstep : ∀ {d : UInt8} {r x : Bytes}, d ≠ chr '"' → d :: r = x ++ chr '"' :: t →
              ∃ x', x = d :: x' ∧ r = x' ++ chr '"' :: t := by
            intro d r x hd heq
            cases x with
            | nil => exact absurd (List.cons.inj heq).1 hd
            | cons a x =>
                obtain ⟨rfl, hrest⟩ := List.cons.inj heq
                exact ⟨x, rfl, hrest⟩
          have hback : chr '\\' ≠ chr '"' := by decide
          have hu : chr 'u' ≠ chr '"' := by decide
          obtain ⟨x₁, rfl, ht₁⟩ := hstep hback h
          obtain ⟨x₂, rfl, ht₂⟩ := hstep hu ht₁
          obtain ⟨x₃, rfl, ht₃⟩ := hstep (hne _ hh₁) ht₂
          obtain ⟨x₄, rfl, ht₄⟩ := hstep (hne _ hh₂) ht₃
          obtain ⟨x₅, rfl, ht₅⟩ := hstep (hne _ hh₃) ht₄
          obtain ⟨x₆, rfl, ht₆⟩ := hstep (hne _ hh₄) ht₅
          exact hlast _ (hlast _ (hlast _ (hlast _ (hlast _ (hlast _ (ih ht₆))))))

/-- The brackets of a string are those of its text. -/
theorem enclosed_stringText :
    Enclosed (chr '[') (chr ']') (stringText s) y ↔ Enclosed (chr '[') (chr ']') (raw s) y := by
  constructor
  · rintro ⟨x, z, h, hx, hz⟩
    cases x with
    | nil => exact absurd (List.cons.inj h).1 (by decide)
    | cons a x =>
        obtain ⟨rfl, hrest⟩ := List.cons.inj h
        change raw s ++ [chr '"'] = x ++ chr '[' :: (y ++ chr ']' :: z) at hrest
        rcases List.eq_nil_or_concat z with rfl | ⟨z, b, rfl⟩
        · have hsplit : raw s ++ [chr '"'] = (x ++ chr '[' :: y) ++ [chr ']'] :=
            hrest.trans (by simp)
          exact absurd (List.cons.inj (List.append_inj' hsplit rfl).2).1 (by decide)
        · rw [List.concat_eq_append] at hrest hz
          have hsplit : raw s ++ [chr '"'] = (x ++ chr '[' :: (y ++ chr ']' :: z)) ++ [b] :=
            hrest.trans (by simp)
          exact ⟨x, z, (List.append_inj' hsplit rfl).1, fun hmem => hx (List.mem_cons_of_mem _ hmem),
            fun hmem => hz (List.mem_append_left _ hmem)⟩
  · rintro ⟨x, z, h, hx, hz⟩
    refine ⟨chr '"' :: x, z ++ [chr '"'], by simp [stringText, h], ?_, ?_⟩
    · rw [List.mem_cons, not_or]
      exact ⟨by decide, hx⟩
    · rw [List.mem_append, not_or]
      exact ⟨hz, by decide⟩

/-! ### Tokens of a key -/

theorem closing_mem_normAns : chr ']' ∈ normAns t ↔ chr ']' ∈ t := by
  constructor
  · intro h
    rcases mem_normFrom h with hblank | ⟨c, hc, heq⟩
    · exact absurd hblank (by decide)
    · have hself : ∀ c : UInt8, chr ']' = toUpper c → c = chr ']' :=
        forall_byte (by decide)
      exact hself c heq ▸ hc
  · exact fun h => toUpper_mem_normFrom h (by decide)

theorem tokenRound_string (s : List Piece) : tokenRound (stringText s) = some (dropEscapes s, []) := by
  unfold tokenRound
  rw [stringText, List.dropWhile_cons_of_neg (by decide)]
  dsimp only
  rw [readText, if_pos rfl, readQuoted_raw]

/-- Without brackets the whole string is one token. -/
theorem parseSetTokens_open (h : ∀ y, ¬ Enclosed (chr '[') (chr ']') (raw s) y) :
    parseSetTokens (stringText s) = some (tokensOf [dropEscapes s]) := by
  have hbetween : between (chr '[') (chr ']') (stringText s) = stringText s :=
    between_of_not_enclosed fun y hy => h y (enclosed_stringText.mp hy)
  refine parseSetTokens_eq_some.mpr ⟨2, ?_⟩
  rw [setTokensIn, hbetween, Scan.of_some (tokenRound_string s), Scan.of_none rfl]
  rfl

theorem parseSetTokens_gaps (h : Enclosed (chr '[') (chr ']') (raw s) y)
    (hy : ∀ c ∈ y, isTokenGap c = true) : parseSetTokens (stringText s) = some [] := by
  have hbetween := between_of_enclosed (enclosed_stringText.mpr h)
  have hround : tokenRound y = none := by
    have hdrop : y.dropWhile isTokenGap = [] := List.dropWhile_eq_nil_iff.mpr hy
    rw [tokenRound, hdrop]
  refine parseSetTokens_eq_some.mpr ⟨1, ?_⟩
  rw [setTokensIn, hbetween, Scan.of_none hround]
  rfl

/-- The first token between brackets has no closing bracket in it. -/
theorem parseSetTokens_enclosed (h : Enclosed (chr '[') (chr ']') (raw s) y)
    (hy : ∃ c ∈ y, isTokenGap c = false) {tokens : List Bytes}
    (htokens : parseSetTokens (stringText s) = some tokens) :
    ∃ token ∈ tokens.head?, chr ']' ∉ token := by
  obtain ⟨n, hn⟩ := parseSetTokens_eq_some.mp htokens
  rw [setTokensIn, between_of_enclosed (enclosed_stringText.mpr h)] at hn
  obtain ⟨texts, hscan, rfl⟩ := Option.map_eq_some_iff.mp hn
  cases hdrop : y.dropWhile isTokenGap with
  | nil =>
      obtain ⟨c, hc, hgap⟩ := hy
      have hall := List.dropWhile_eq_nil_iff.mp hdrop c hc
      rw [hgap] at hall
      cases hall
  | cons c v =>
      have hc : isTokenGap c = false := by
        have hhead := List.head?_dropWhile_not isTokenGap y
        rw [hdrop] at hhead
        simpa using hhead
      have hquote : c ≠ chr '"' := by
        rintro rfl
        obtain ⟨x, z, hraw, -, -⟩ := h
        have hsplit : y = y.takeWhile isTokenGap ++ chr '"' :: v := by
          rw [← hdrop, List.takeWhile_append_dropWhile]
        have hbefore : raw s =
            (x ++ chr '[' :: y.takeWhile isTokenGap) ++ chr '"' :: (v ++ chr ']' :: z) := by
          rw [hraw]
          nth_rewrite 1 [hsplit]
          simp
        have hlast := backslash_before_quote hbefore
        rw [List.getLast?_append, List.getLast?_cons, Option.some_or, Option.some.injEq] at hlast
        cases hgaps : (y.takeWhile isTokenGap).getLast? with
        | none =>
            rw [hgaps] at hlast
            exact absurd hlast (by decide)
        | some b =>
            rw [hgaps, Option.getD_some] at hlast
            have hb := List.mem_takeWhile_imp (List.mem_of_getLast? hgaps)
            rw [hlast] at hb
            exact absurd hb (by decide)
      have hround : tokenRound y = some ((c :: v).takeWhile fun b => !endsToken b,
          (c :: v).dropWhile fun b => !endsToken b) := by
        rw [tokenRound, hdrop]
        dsimp only
        rw [readText, if_neg hquote]
      cases hends : endsToken c with
      | true =>
          -- a closing bracket stops the token and is not passed over
          rcases tokenRound_length hround with hshort | hnever
          · have hfixed : (c :: v).dropWhile (fun b => !endsToken b) = c :: v :=
              List.dropWhile_cons_of_neg (by simp [hends])
            have hloop : tokenRound (c :: v) = some ([], c :: v) := by
              have hsame : (c :: v).dropWhile isTokenGap = c :: v :=
                List.dropWhile_cons_of_neg (by simp [hc])
              rw [tokenRound, hsame]
              dsimp only
              rw [readText, if_neg hquote, hfixed, List.takeWhile_cons_of_neg (by simp [hends])]
            cases n with
            | zero => cases hscan
            | succ n =>
                rw [Scan.of_some hround, hfixed, Scan.eq_none_of_loop hloop] at hscan
                cases hscan
          · cases n with
            | zero => cases hscan
            | succ n =>
                rw [Scan.of_some hround, hnever] at hscan
                cases hscan
      | false =>
          cases n with
          | zero => cases hscan
          | succ n =>
              rw [Scan.of_some hround] at hscan
              obtain ⟨items, -, rfl⟩ := Option.map_eq_some_iff.mp hscan
              refine ⟨normAns ((c :: v).takeWhile fun b => !endsToken b), ?_, ?_⟩
              · rw [List.takeWhile_cons_of_pos (by simp [hends])]
                simp [tokensOf]
              · rw [closing_mem_normAns]
                intro hmem
                exact absurd (List.mem_takeWhile_imp hmem) (by decide)

theorem closing_mem_of_enclosed (h : Enclosed (chr '[') (chr ']') (raw s) y) : chr ']' ∈ raw s := by
  obtain ⟨x, z, hraw, -, -⟩ := h
  rw [hraw]
  simp

theorem normAns_decode_ne_nil (hink : ∃ c ∈ decode s, isSpace c = false) : normAns (decode s) ≠ [] := by
  obtain ⟨c, hc, hspace⟩ := hink
  exact List.ne_nil_of_mem (toUpper_mem_normFrom hc hspace)

/-- A string with nothing but escapes is not read as what it denotes. -/
theorem normAns_raw_ne (hink : ∃ c ∈ decode s, isSpace c = false) (hdrop : dropEscapes s = []) :
    normAns (raw s) ≠ normAns (decode s) := by
  intro h
  have hplain := (normAns_raw_iff s).mp h
  have hnone : s.countP (fun p => !isPlain p) = 0 :=
    List.countP_eq_zero.mpr fun p hp => by simp [hplain p hp]
  have hinks := inks_raw s
  rw [hdrop, hnone, raw_eq_decode hplain] at hinks
  obtain ⟨c, hc, hspace⟩ := hink
  have hcount := List.countP_eq_zero.mp hinks c hc
  simp [isInk, hspace] at hcount

/-- The key of a question is its string exactly if the string is readable. -/
theorem singleKeyToken_iff {q : Question} (hraw : q.keyRaw = stringText s) (hkey : q.key = raw s)
    (hink : ∃ c ∈ decode s, isSpace c = false) :
    singleKeyToken q = some (normAns (decode s)) ↔ Readable s := by
  unfold singleKeyToken
  rw [hraw]
  by_cases henclosed : ∃ y, Enclosed (chr '[') (chr ']') (raw s) y
  · obtain ⟨y, hy⟩ := henclosed
    have hunique : ∀ y', Enclosed (chr '[') (chr ']') (raw s) y' → y' = y := fun y' hy' =>
      (between_of_enclosed hy').symm.trans (between_of_enclosed hy)
    have hreadable : Readable s ↔ (∀ c ∈ y, isTokenGap c = true) ∧ ∀ p ∈ s, isPlain p = true :=
      ⟨fun h => h.enclosed y hy,
        fun h => ⟨fun y' hy' => hunique y' hy' ▸ h, fun hopen => absurd hy (hopen y)⟩⟩
    rw [hreadable]
    by_cases hgaps : ∀ c ∈ y, isTokenGap c = true
    · rw [parseSetTokens_gaps hy hgaps, Option.map_some, List.head?_nil, Option.getD_none, hkey,
        Option.some.injEq, normAns_raw_iff, and_iff_right hgaps]
    · have hink : ∃ c ∈ y, isTokenGap c = false := by simpa using hgaps
      refine iff_of_false (fun h => ?_) fun h => hgaps h.1
      obtain ⟨tokens, htokens, hsame⟩ := Option.map_eq_some_iff.mp h
      obtain ⟨token, htoken, hno⟩ := parseSetTokens_enclosed hy hink htokens
      rw [Option.mem_def.mp htoken, Option.getD_some] at hsame
      rw [hsame, closing_mem_normAns] at hno
      exact hno (closing_mem_decode (closing_mem_of_enclosed hy))
  · rw [not_exists] at henclosed
    have hreadable : Readable s ↔ normAns (dropEscapes s) = normAns (decode s) := by
      rw [normAns_dropEscapes_iff]
      exact ⟨fun h => h.unenclosed henclosed,
        fun h => ⟨fun y hy => absurd hy (henclosed y), fun _ => h⟩⟩
    rw [hreadable, parseSetTokens_open henclosed, Option.map_some, Option.some.injEq]
    by_cases hdrop : dropEscapes s = []
    · rw [hdrop]
      refine iff_of_false ?_ (normAns_decode_ne_nil hink).symm
      change normAns q.key ≠ _
      rw [hkey]
      exact normAns_raw_ne hink hdrop
    · rw [tokensOf, List.filter_cons_of_pos (by simpa using hdrop)]
      rfl

/-! ### The question -/

theorem normAns_answerText (answer : Bytes) : normAns (answerText answer) = normAns answer := by
  induction answer with
  | nil => rfl
  | cons c t ih =>
      unfold answerText
      rw [List.dropWhile_cons]
      split
      next hblank =>
        have hspace : isSpace c = true := by
          have hall : ∀ c, Queue.isBlank c = true → isSpace c = true :=
            forall_byte (by decide)
          exact hall c hblank
        have hskip : normAns (c :: t) = normFrom false true t := by simp [normAns, normFrom, hspace]
        rw [hskip, normFrom_false]
        exact ih
      next => rfl

/-- A text of one object is read as one question if it has a `number`. -/
theorem parseQuestions_object (stod : Bytes → Option ℚ) (lead : Blanks) (members : Members) :
    parseQuestions stod (Value.object lead members).render =
      if hasNumber (Value.object lead members).render then
        [parseQuestion stod (Value.object lead members).render]
      else [] := by
  have hround := objectRound_object List.not_mem_nil lead members []
  rw [List.nil_append, List.append_nil] at hround
  have hscan : scan objectRound 2 (Value.object lead members).render =
      some [(Value.object lead members).render] := by
    rw [Scan.of_some hround, Scan.of_none (objectRound_none List.not_mem_nil)]
    rfl
  unfold parseQuestions
  dsimp only
  rw [scan_objectRound hscan, Option.getD_some, List.filter_singleton]
  cases hasNumber (Value.object lead members).render <;> rfl

theorem extractStr_value {k : Bytes} (hk : Utils.Plain k) (v : Value) :
    extractStr v.render k = ((findMember (spelledAs k) v).map Prod.snd).getD [] := by
  have htext : Text.render ⟨.empty, v, .empty⟩ = v.render := by simp [Text.render]
  rw [← htext]
  exact extractStr_render hk ⟨.empty, v, .empty⟩

theorem firstText_of_ne {a b : Bytes} (h : a ≠ []) : firstText a b = a := if_neg h

/-- The fields of the question that decide its grade. -/
theorem parseQuestion_found (stod : Bytes → Option ℚ) {v : Value} (h : FindsKey v s)
    (hne : raw s ≠ []) :
    (parseQuestion stod v.render).keyRaw = stringText s ∧
      (parseQuestion stod v.render).key = raw s ∧
      isSetType (parseQuestion stod v.render).type = false ∧
      (parseQuestion stod v.render).type ≠ str "matching" := by
  obtain ⟨u, t, hbehind, hdrop⟩ := h.key
  have hraw : extractRawValue v.render (str "key") = stringText s := by
    rw [extractRawValue_of_behind hbehind, rawText_string hdrop]
  have hkey : extractStr v.render (str "key") = raw s := by
    rw [extractStr_value (by decide), h.keyText, Option.getD_some]
  have htext : stringText s ≠ [] := List.cons_ne_nil _ _
  have htype : ∀ type, type = extractStr v.render (str "type") → type ≠ [] →
      isSetType type = false ∧ type ≠ str "matching" := by
    rintro _ rfl hsome
    rw [extractStr_value (by decide)] at hsome ⊢
    cases hfind : findMember (spelledAs (str "type")) v with
    | none =>
        rw [hfind] at hsome
        exact absurd rfl hsome
    | some m => exact h.type m hfind
  refine ⟨?_, ?_, ?_⟩
  · unfold parseQuestion
    dsimp only
    rw [hraw, firstText_of_ne htext, if_neg fun hnil => htext hnil.1]
  · unfold parseQuestion
    dsimp only
    rw [hkey, firstText_of_ne hne]
  · change isSetType (firstText (extractStr v.render (str "type")) (str "single_choice")) = false ∧
      firstText (extractStr v.render (str "type")) (str "single_choice") ≠ str "matching"
    unfold firstText
    split
    · decide
    next hsome => exact htype _ rfl hsome

end

/-- Where the searches come upon the key, the exact answer gets the full weight exactly if the text
has a quoted `number`, the answer is not taken for an empty list, and the key is readable. -/
theorem scoresFull_iff (stod : Bytes → Option ℚ) (lead : Blanks) {members : Members} {s : List Piece}
    (hq : TextQuestion members s) (hfinds : FindsKey (.object lead members) s) :
    ScoresFull stod (Value.object lead members).render (decode s) ↔
      hasNumber (Value.object lead members).render = true ∧
        isUnanswered (answerText (decode s)) = false ∧ Readable s := by
  have hne : raw s ≠ [] := by
    obtain ⟨c, hc, -⟩ := hq.ink
    rintro hnil
    have hs : s = [] := by
      cases s with
      | nil => rfl
      | cons p s => cases p <;> simp [Piece.text] at hnil
    rw [hs] at hc
    cases hc
  obtain ⟨hraw, hkey, hset, hmatching⟩ := parseQuestion_found stod hfinds hne
  have htoken := singleKeyToken_iff hraw hkey hq.ink
  unfold ScoresFull
  rw [parseQuestions_object]
  cases hnumber : hasNumber (Value.object lead members).render with
  | false => simp
  | true =>
      rw [if_pos rfl]
      cases hanswer : isUnanswered (answerText (decode s)) with
      | true =>
          refine iff_of_false ?_ (by simp)
          rintro ⟨q, hq, d, hd, hcorrect, -⟩
          rw [evaluate_of_unanswered hanswer] at hd
          cases hd
          cases hcorrect
      | false =>
          rw [and_iff_right rfl, and_iff_right rfl, ← htoken]
          constructor
          · rintro ⟨q, hq, d, hd, hcorrect, -⟩
            obtain rfl := (List.cons.inj hq).1
            rw [evaluate_single hanswer (by simp [hset]) hmatching, normAns_answerText] at hd
            obtain ⟨key, htokens, rfl⟩ := Option.map_eq_some_iff.mp hd
            rw [status_exactDetail, decide_eq_true_eq] at hcorrect
            rw [htokens, hcorrect]
          · intro htokens
            refine ⟨_, rfl, exactDetail true _, ?_, rfl, rfl⟩
            rw [evaluate_single hanswer (by simp [hset]) hmatching, normAns_answerText, htokens,
              Option.map_some, decide_eq_true rfl]
            rfl

/-- A short answer question. -/
def shortAnswer (key : List Piece) : Members :=
  .compact [
    (Queue.escapedPieces (str "number"),
      .literal (.number { whole := ⟨str "1", by decide, by decide⟩, no_leading_zero := by decide })),
    (Queue.escapedPieces (str "type"), .string (Queue.escapedPieces (str "short_answer"))),
    (Queue.escapedPieces (str "key"), .string key)]

theorem textQuestion_shortAnswer {key : List Piece} (hink : ∃ c ∈ decode key, isSpace c = false) :
    TextQuestion (shortAnswer key) key where
  number := ⟨_, List.mem_cons_self, Queue.decode_escapedPieces _⟩
  type := ⟨_, _, List.mem_cons_of_mem _ List.mem_cons_self, Queue.decode_escapedPieces _,
    by decide +kernel⟩
  key := ⟨_, List.mem_cons_of_mem _ (List.mem_cons_of_mem _ List.mem_cons_self),
    Queue.decode_escapedPieces _⟩
  ink := hink

theorem scoresFull_capital :
    ScoresFull (fun _ => none)
        (Value.object .empty (shortAnswer (Queue.escapedPieces (str "New  York")))).render
        (decode (Queue.escapedPieces (str "New  York"))) ↔
      hasNumber (Value.object .empty
          (shortAnswer (Queue.escapedPieces (str "New  York")))).render = true ∧
        isUnanswered (answerText (decode (Queue.escapedPieces (str "New  York")))) = false ∧
        Readable (Queue.escapedPieces (str "New  York")) :=
  scoresFull_iff _ _ (textQuestion_shortAnswer ⟨chr 'N', by decide +kernel, by decide⟩) {
    type := fun m hm => by
      have hfind : findMember (spelledAs (str "type")) (.object .empty
          (shortAnswer (Queue.escapedPieces (str "New  York")))) =
            some (Queue.escapedPieces (str "type"), str "short_answer") := rfl
      rw [hfind] at hm
      cases hm
      decide
    key := ⟨str "\"New  York\"\x7d", str "\x7d", ⟨[], by decide +kernel, by decide⟩,
      by decide +kernel⟩
    keyText := rfl }

theorem not_scoresFull :
    ¬ ∀ stod lead members s, TextQuestion members s →
      ScoresFull stod (Value.object lead members).render (decode s) := by
  intro h
  obtain ⟨q, hq, d, hd, hcorrect, -⟩ := h (fun _ => none) .empty _ (Queue.escapedPieces (str "say \"hi\""))
    (textQuestion_shortAnswer ⟨chr 's', by decide +kernel, by decide⟩)
  have hincorrect : ∀ q ∈ parseQuestions (fun _ => none) (Value.object .empty
      (shortAnswer (Queue.escapedPieces (str "say \"hi\"")))).render,
      evaluateQuestionDetail q (decode (Queue.escapedPieces (str "say \"hi\""))) =
        some ⟨0, .incorrect⟩ := by decide +kernel
  rw [hincorrect q (hq ▸ List.mem_cons_self)] at hd
  cases hd
  cases hcorrect

end ExamVan.Middleware
