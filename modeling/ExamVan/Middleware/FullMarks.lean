import ExamVan.Middleware.Grade

/-!
# Full marks

With or without partial credit, full marks ought to be for the same answers. What the answer has too
often of the key counts for what it lacks of it and for what is not in the key at all, and pairs
beyond those of the key count for nothing.
-/

namespace ExamVan.Middleware

open ByteString

/-! ### Two lists against each other -/

section

variable {α : Type*} [BEq α] [LawfulBEq α] {key ts : List α}

/-- What the answer has too often of the key. -/
def surplus (key ts : List α) : Nat := (ts.diff key).countP (· ∈ key)

/-- What the answer has too rarely of the key. -/
def lacking (key ts : List α) : Nat := (key.diff ts).length

/-- What the answer has that is not in the key. -/
def foreign (key ts : List α) : Nat := ts.countP (· ∉ key)

/-- Either list with what it lacks of the other is the same. -/
theorem perm_append_diff (key ts : List α) : (ts ++ key.diff ts).Perm (key ++ ts.diff key) := by
  rw [List.perm_iff_count]
  intro t
  rw [List.count_append, List.count_append, List.count_diff, List.count_diff]
  omega

theorem diff_eq_nil_of_perm {a b : List α} (h : a.Perm b) : a.diff b = [] := by
  rw [← List.perm_nil, List.perm_iff_count]
  intro t
  rw [List.count_diff, h.count_eq, Nat.sub_self, List.count_nil]

theorem countP_mem_self (key : List α) : key.countP (· ∈ key) = key.length :=
  List.countP_eq_length.mpr fun _ h => decide_eq_true h

theorem countP_mem_add_lacking (key ts : List α) :
    ts.countP (· ∈ key) + lacking key ts = key.length + surplus key ts := by
  have hall : (key.diff ts).countP (· ∈ key) = lacking key ts :=
    List.countP_eq_length.mpr fun t ht => decide_eq_true (List.diff_subset _ _ ht)
  have hcount := (perm_append_diff key ts).countP_eq (· ∈ key)
  rw [List.countP_append, List.countP_append, hall, countP_mem_self] at hcount
  exact hcount

/-- Lists are the same up to order exactly if nothing is too much or too little. -/
theorem perm_iff_balance :
    key.Perm ts ↔ surplus key ts = 0 ∧ lacking key ts = 0 ∧ foreign key ts = 0 := by
  constructor
  · intro h
    refine ⟨?_, ?_, List.countP_eq_zero.mpr fun t ht => ?_⟩
    · rw [surplus, diff_eq_nil_of_perm h.symm, List.countP_nil]
    · rw [lacking, diff_eq_nil_of_perm h, List.length_nil]
    · simpa using h.mem_iff.mpr ht
  · rintro ⟨hsurplus, hlacking, hforeign⟩
    have hmem : ∀ t ∈ ts, t ∈ key := fun t ht => by
      simpa using List.countP_eq_zero.mp hforeign t ht
    have hts : ts.diff key = [] := by
      refine List.eq_nil_iff_forall_not_mem.mpr fun t ht => ?_
      have hnot := List.countP_eq_zero.mp hsurplus t ht
      exact hnot (decide_eq_true (hmem t (List.diff_subset _ _ ht)))
    have hboth := perm_append_diff key ts
    rw [hts, List.length_eq_zero_iff.mp hlacking, List.append_nil, List.append_nil] at hboth
    exact hboth.symm

end

/-! ### Two ways to grade -/

/-- The question with or without partial credit gives the answer all of its marks. -/
def FullMarks (q : Question) (counted : Bool) (answerRaw : Bytes) : Prop :=
  ∃ d ∈ evaluateQuestionDetail { q with isPartial := counted } answerRaw, d.status = .correct

def FullMarksAgree (q : Question) (answerRaw : Bytes) : Prop :=
  FullMarks q true answerRaw ↔ FullMarks q false answerRaw

def HasKey (q : Question) : Prop :=
  (isSetType q.type = true → parseSetTokens q.keyRaw ≠ some []) ∧
    (q.type = str "matching" → parseObjectPairs q.keyRaw ≠ some [])

/-- What is too much does not make up for what is lacking and foreign, unless there is none of all. -/
def SetBalanced (key ts : List Bytes) : Prop :=
  (surplus key ts = 0 ∧ lacking key ts = 0 ∧ foreign key ts = 0) ∨
    surplus key ts + tolerance * key.length < lacking key ts + foreign key ts

/-- A pair of the key is lacking, or none and the answer has no other. -/
def PairsBalanced (key ps : List KV) : Prop :=
  (ps.length = key.length ∧ foreign ps key = 0) ∨ tolerance * key.length < foreign ps key

/-- The answer leaves no room for the two ways to differ. -/
def Balanced (q : Question) (answerRaw : Bytes) : Prop :=
  isUnanswered (answerText answerRaw) = false →
    (isSetType q.type = true → ∀ key ∈ parseSetTokens q.keyRaw,
      ∀ ts ∈ parseSetTokens (answerText answerRaw), SetBalanced key ts) ∧
    (q.type = str "matching" → ∀ key ∈ parseObjectPairs q.keyRaw,
      ∀ ps ∈ parseObjectPairs (answerText answerRaw), PairsBalanced key ps)

section

variable {q : Question} {key ts : List Bytes} {keyPairs ps : List KV} {answerRaw : Bytes}

theorem status_exactDetail (same : Bool) (w : ℚ) :
    (exactDetail same w).status = .correct ↔ same = true := by
  cases same <;> simp [exactDetail]

theorem status_portionDetail (portion w : ℚ) :
    (portionDetail portion w).status = .correct ↔ 1 - tolerance ≤ portion := by
  unfold portionDetail
  dsimp only
  split
  next h => exact iff_of_true rfl h
  next h =>
    refine iff_of_false ?_ h
    split <;> exact EvalStatus.noConfusion

theorem tolerance_lt_one : tolerance < 1 := by
  norm_num [tolerance]

theorem correct_strict_set_iff :
    (gradeSet { q with isPartial := false } key ts).status = .correct ↔ key.Perm ts := by
  unfold gradeSet
  rw [if_neg Bool.false_ne_true, status_exactDetail, setsEqual_iff, List.perm_comm]

theorem correct_counted_set_iff (hkey : key ≠ []) :
    (gradeSet { q with isPartial := true } key ts).status = .correct ↔
      (lacking key ts + foreign key ts : ℚ) ≤ surplus key ts + tolerance * key.length := by
  have hpos := length_pos_of_ne_nil hkey
  have hbalance : (hits key ts : ℚ) + lacking key ts = key.length + surplus key ts := by
    exact_mod_cast countP_mem_add_lacking key ts
  have hwhole : 0 < (1 - tolerance) * key.length :=
    mul_pos (sub_pos.mpr tolerance_lt_one) hpos
  unfold gradeSet
  rw [if_pos rfl, if_neg hkey, status_portionDetail, le_div_iff₀ hpos, le_max_iff,
    or_iff_right hwhole.not_ge, Int.cast_sub, Int.cast_natCast, Int.cast_natCast]
  have hforeign : misses key ts = foreign key ts := rfl
  rw [hforeign]
  constructor <;> intro h <;> linarith

theorem set_agree_iff (hkey : key ≠ []) :
    ((gradeSet { q with isPartial := true } key ts).status = .correct ↔
        (gradeSet { q with isPartial := false } key ts).status = .correct) ↔
      SetBalanced key ts := by
  rw [correct_counted_set_iff hkey, correct_strict_set_iff, perm_iff_balance, SetBalanced]
  by_cases hsame : surplus key ts = 0 ∧ lacking key ts = 0 ∧ foreign key ts = 0
  · obtain ⟨hsurplus, hlacking, hforeign⟩ := hsame
    refine iff_of_true (iff_of_true ?_ ⟨hsurplus, hlacking, hforeign⟩)
      (Or.inl ⟨hsurplus, hlacking, hforeign⟩)
    rw [hsurplus, hlacking, hforeign]
    have : 0 ≤ tolerance * key.length := mul_nonneg (by norm_num [tolerance]) (Nat.cast_nonneg _)
    simpa using this
  · rw [iff_false_right hsame, or_iff_right hsame, not_le]

theorem correct_strict_pairs_iff :
    (gradePairs { q with isPartial := false } keyPairs ps).status = .correct ↔
      ps.length = keyPairs.length ∧ foreign ps keyPairs = 0 := by
  unfold gradePairs
  rw [if_neg Bool.false_ne_true, status_exactDetail, setsEqualObj_iff, foreign,
    List.countP_eq_zero, eq_comm]
  simp

theorem correct_counted_pairs_iff (hkey : keyPairs ≠ []) :
    (gradePairs { q with isPartial := true } keyPairs ps).status = .correct ↔
      (foreign ps keyPairs : ℚ) ≤ tolerance * keyPairs.length := by
  have hpos := length_pos_of_ne_nil hkey
  have hcount : (keyPairs.length : ℚ) = keyPairs.countP (· ∈ ps) + foreign ps keyPairs := by
    have h := @List.length_eq_countP_add_countP _ (fun kv => decide (kv ∈ ps)) keyPairs
    simp only [decide_eq_true_eq] at h
    exact_mod_cast h
  unfold gradePairs
  rw [if_pos rfl, if_neg hkey, status_portionDetail, le_div_iff₀ hpos]
  constructor <;> intro h <;> linarith

theorem pairs_agree_iff (hkey : keyPairs ≠ []) :
    ((gradePairs { q with isPartial := true } keyPairs ps).status = .correct ↔
        (gradePairs { q with isPartial := false } keyPairs ps).status = .correct) ↔
      PairsBalanced keyPairs ps := by
  rw [correct_counted_pairs_iff hkey, correct_strict_pairs_iff, PairsBalanced]
  by_cases hsame : ps.length = keyPairs.length ∧ foreign ps keyPairs = 0
  · refine iff_of_true (iff_of_true ?_ hsame) (Or.inl hsame)
    rw [hsame.2, Nat.cast_zero]
    exact mul_nonneg (by norm_num [tolerance]) (Nat.cast_nonneg _)
  · rw [iff_false_right hsame, or_iff_right hsame, not_le]

/-- With and without partial credit, full marks are for the same answers exactly if nothing too much
makes up for something else. -/
theorem fullMarksAgree_iff_balanced (q : Question) (answerRaw : Bytes) (hkey : HasKey q) :
    FullMarksAgree q answerRaw ↔ Balanced q answerRaw := by
  unfold FullMarksAgree FullMarks Balanced
  cases hans : isUnanswered (answerText answerRaw) with
  | true =>
      rw [evaluate_of_unanswered hans, evaluate_of_unanswered hans]
      exact iff_of_true Iff.rfl fun h => by cases h
  | false =>
      by_cases hset : isSetType q.type = true
      · have htype := not_matching_of_isSetType hset
        have heval : ∀ counted, evaluateQuestionDetail { q with isPartial := counted } answerRaw =
            (parseSetTokens q.keyRaw).bind fun key => (parseSetTokens (answerText answerRaw)).map
              fun ts => gradeSet { q with isPartial := counted } key ts :=
          fun counted => evaluate_set hans hset
        rw [heval, heval]
        cases hparsed : parseSetTokens q.keyRaw with
        | none => simp [htype]
        | some key =>
            have hne : key ≠ [] := fun h => hkey.1 hset (h ▸ hparsed)
            cases parseSetTokens (answerText answerRaw) with
            | none => simp [htype]
            | some ts => simpa [hset, htype] using set_agree_iff hne
      · by_cases hmatching : q.type = str "matching"
        · obtain ⟨key, hparsed⟩ := Option.isSome_iff_exists.mp (isSome_parseObjectPairs q.keyRaw)
          obtain ⟨ps, hps⟩ :=
            Option.isSome_iff_exists.mp (isSome_parseObjectPairs (answerText answerRaw))
          have hne : key ≠ [] := fun h => hkey.2 hmatching (h ▸ hparsed)
          have heval : ∀ counted, evaluateQuestionDetail { q with isPartial := counted } answerRaw =
              some (gradePairs { q with isPartial := counted } key ps) := fun counted =>
            (@evaluate_matching { q with isPartial := counted } _ hans hmatching).trans <| by
              rw [hparsed, hps]
              rfl
          rw [heval, heval]
          simp only [Option.mem_some_iff, exists_eq_left']
          refine (pairs_agree_iff hne).trans ⟨fun h _ => ⟨fun hset' => absurd hset' hset, ?_⟩, ?_⟩
          · intro _ key' hkey' ps' hps'
            rw [← Option.some.inj (hparsed.symm.trans hkey'), ← Option.some.inj (hps.symm.trans hps')]
            exact h
          · exact fun h => (h trivial).2 hmatching key hparsed ps hps
        · have heval : ∀ counted, evaluateQuestionDetail { q with isPartial := counted } answerRaw =
              (singleKeyToken q).map fun key =>
                exactDetail (normAns (answerText answerRaw) = key) q.weight :=
            fun counted => evaluate_single hans hset hmatching
          rw [heval, heval]
          exact iff_of_true Iff.rfl fun _ => ⟨fun h => absurd h hset, fun h => absurd h hmatching⟩

end

/-- Each token of the key once is all there is to have. -/
theorem fullMarksAgree_setQuestion :
    FullMarksAgree setQuestion (str "[\"A\"]") := by
  refine (fullMarksAgree_iff_balanced _ _ ⟨fun _ => by decide, fun h => ?_⟩).mpr fun _ => ?_
  · exact absurd h (by decide)
  · refine ⟨fun _ => ?_, fun h => absurd h (by decide)⟩
    have hkey : parseSetTokens setQuestion.keyRaw = some [str "A"] := by decide
    have hts : parseSetTokens (answerText (str "[\"A\"]")) = some [str "A"] := by decide
    rw [hkey, hts]
    rintro _ ⟨⟩ _ ⟨⟩
    exact Or.inl (by decide)

/-- The only token of the key twice. -/
theorem not_fullMarksAgree : ¬ ∀ q answerRaw,
    isSetType q.type = true ∨ q.type = str "matching" → HasKey q → FullMarksAgree q answerRaw := by
  intro h
  have hkey : HasKey setQuestion :=
    ⟨fun _ => by decide, fun h => absurd h (by decide)⟩
  have hagree := h setQuestion (str "[\"A\",\"A\"]") (Or.inl (by decide)) hkey
  obtain ⟨d, hd, hcorrect⟩ := hagree.mp ⟨⟨2, .correct⟩, by decide +kernel, rfl⟩
  have hstrict : evaluateQuestionDetail { setQuestion with isPartial := false }
      (str "[\"A\",\"A\"]") = some ⟨0, .incorrect⟩ := by decide
  rw [hstrict] at hd
  cases hd
  cases hcorrect

example : evaluateQuestionDetail setQuestion (str "[\"A\",\"A\"]") = some ⟨2, .correct⟩ := by decide +kernel

end ExamVan.Middleware
