import ExamVan.Middleware.QuestionText
import ExamVan.Queue.Codec
import Mathlib.Algebra.BigOperators.Group.List.Basic

/-!
# The result page

The page grades the stored answers once more. It takes the texts of a stored map as they are spelled,
so an escape stays in an answer, and a weight that is not positive counts as 1 for the best score.
-/

namespace ExamVan.Public

open ByteString Queue Middleware

/-! ### Stored answers -/

/-- A value of the stored map, and the text behind it. A string stands for the characters between its
quotes, an array or object for its text. -/
def answerValue (s : Bytes) : Bytes × Bytes :=
  match s with
  | [] => ([], [])
  | c :: t =>
      if c = chr '"' then (scanString t).getD (t, [])
      else if c = chr '[' ∨ c = chr '\x7b' then (bracketed 0 false false (c :: t)).getD (c :: t, [])
      else (c :: t).span fun c => !(c = chr ',' || c = chr '\x7d')

/-- One round of the loop of `parse_answers`. -/
def answerRound (s : Bytes) : Option (KV × Bytes) :=
  (findByte (· = chr '"') s).bind fun u => (scanString u.tail).bind fun key =>
    (findByte (· = chr ':') key.2).map fun w =>
      let value := answerValue (w.tail.dropWhile isBlank)
      ((key.1, value.1), value.2)

def parseAnswers (json : Bytes) : StringMap :=
  OrderedMap.empty.insertAll ((scan answerRound (json.length + 1) json).getD [])

/-! ### The second grading -/

/-- The entry of `evaluated_answers` for each question; `none` if the grading does not return. -/
def evaluatedAnswers (answers : StringMap) (qs : List Question) : Option (List EvalDetail) :=
  qs.mapM fun q => evaluateQuestionDetail q ((answerTo answers q).getD [])

/-- `max_score`. -/
def maxScore (qs : List Question) : ℚ := (qs.map fun q => if 0 < q.weight then q.weight else 1).sum

def totalWeight (qs : List Question) : ℚ := (qs.map (·.weight)).sum

/-- The stored score is the part of the best score that the page shows as earned. -/
def PageAgrees (stod : Bytes → Option ℚ) (questionsJson : Bytes) (answers : StringMap) : Prop :=
  let qs := parseQuestions stod questionsJson
  totalWeight qs ≠ 0 →
    ∃ score, scoreSubmissionJson stod questionsJson answers = some (some score) ∧
      ∃ shown ∈ evaluatedAnswers (parseAnswers (mapToJson answers)) qs,
        score = 100 * (shown.map (·.earned)).sum / maxScore qs

section

variable {answers : StringMap} {qs : List Question}

/-! ### Reading the map back -/

theorem answerRound_member (first : Bool) (k v t : Bytes) :
    answerRound (separator first ++ (quoted k ++ chr ':' :: (quoted v ++ t))) =
      some ((jsonEscape k, jsonEscape v), t) := by
  have hfind : findByte (· = chr '"') (separator first ++ (quoted k ++ chr ':' :: (quoted v ++ t))) =
      some (quoted k ++ chr ':' :: (quoted v ++ t)) := by
    cases first <;> simp [separator, quoted, findByte, chr]
  have hvalue : (chr '"' :: (jsonEscape v ++ chr '"' :: t)).dropWhile isBlank =
      chr '"' :: (jsonEscape v ++ chr '"' :: t) := List.dropWhile_cons_of_neg (by decide)
  rw [answerRound, hfind, quoted_append, quoted_append]
  simp only [Option.bind_some, List.tail_cons, scanString_jsonEscape]
  rw [findByte_cons_pos (by decide), Option.map_some, List.tail_cons, hvalue]
  simp only [answerValue, if_true, scanString_jsonEscape, Option.getD_some]

def spelled (kv : KV) : KV := (jsonEscape kv.1, jsonEscape kv.2)

theorem scan_mapMembers (first : Bool) (entries : List KV) {n : Nat} (h : entries.length < n) :
    scan answerRound n (mapMembers first entries ++ [chr '\x7d']) = some (entries.map spelled) := by
  induction entries generalizing first n with
  | nil =>
      obtain ⟨n, rfl⟩ := Nat.exists_eq_succ_of_ne_zero (Nat.ne_of_gt h)
      have hclose : answerRound [chr '\x7d'] = none := by decide
      exact Scan.of_none hclose
  | cons kv rest ih =>
      obtain ⟨n, rfl⟩ := Nat.exists_eq_succ_of_ne_zero (Nat.ne_of_gt (Nat.zero_lt_of_lt h))
      rw [mapMembers_cons, List.append_assoc, List.append_assoc, List.cons_append, List.append_assoc,
        Scan.of_some (answerRound_member first _ _ _), ih false (Nat.lt_of_succ_lt_succ h)]
      rfl

/-- The page reads every entry of a stored map, but as it is spelled. -/
theorem parseAnswers_mapToJson (m : StringMap) :
    parseAnswers (mapToJson m) = OrderedMap.empty.insertAll (m.entries.map spelled) := by
  have hlength : m.entries.length < (mapToJson m).length := by
    have hmembers := length_le_mapMembers true m.entries
    rw [mapToJson, List.length_cons, List.length_append]
    omega
  have hopen : answerRound (mapToJson m) = answerRound (mapMembers true m.entries ++ [chr '\x7d']) := by
    rw [answerRound, mapToJson, findByte, if_neg (by decide)]
    rfl
  have hscan : scan answerRound ((mapToJson m).length + 1) (mapToJson m) =
      scan answerRound ((mapToJson m).length + 1) (mapMembers true m.entries ++ [chr '\x7d']) := by
    rw [scan, scan, hopen]
  rw [parseAnswers, hscan, scan_mapMembers true m.entries (Nat.lt_succ_of_lt hlength)]
  rfl

/-- The page finds the answer to a question as it is spelled in the stored text. -/
theorem answerTo_parseAnswers (q : Question) :
    answerTo (parseAnswers (mapToJson answers)) q = (answerTo answers q).map jsonEscape := by
  have hkey : jsonEscape (intText q.number.toInt) = intText q.number.toInt :=
    jsonEscape_of_unescaped (unescaped_intText _)
  rw [answerTo, answerTo, parseAnswers_mapToJson, ← hkey]
  exact (OrderedMap.find?_insertAll_map jsonEscape_injective jsonEscape answers _).trans
    (by rw [hkey])

/-! ### Two sums -/

theorem evaluate_nil (q : Question) : evaluateQuestionDetail q [] = some ⟨0, .unanswered⟩ :=
  evaluate_of_unanswered (by decide)

/-- What a question adds to the tally. -/
def gradeOf (answers : StringMap) (q : Question) : Option EvalDetail :=
  evaluateQuestionDetail q ((answerTo answers q).getD [])

theorem add_eq (t : Tally) (q : Question) :
    Tally.add answers t q = (gradeOf answers q).map fun d => ⟨t.total + q.weight, t.got + d.earned⟩ := by
  unfold Tally.add gradeOf
  cases answerTo answers q with
  | none =>
      rw [Option.getD_none, evaluate_nil, Option.map_some]
      dsimp only
      rw [add_zero]
  | some a => rfl

theorem mapM_eq_some_map {α β : Type*} {f : α → Option β} {g : α → β} {l : List α}
    (h : ∀ x ∈ l, f x = some (g x)) : l.mapM f = some (l.map g) := by
  induction l with
  | nil => rfl
  | cons x l ih =>
      obtain ⟨hx, hl⟩ := List.forall_mem_cons.mp h
      rw [List.mapM_cons, hx, ih hl]
      rfl

/-- The tally of questions that are all graded is the total weight and what they add. -/
theorem tally_eq {shown : Question → EvalDetail}
    (h : ∀ q ∈ qs, gradeOf answers q = some (shown q)) (t : Tally) :
    qs.foldlM (Tally.add answers) t =
      some ⟨t.total + totalWeight qs, t.got + (qs.map fun q => (shown q).earned).sum⟩ := by
  induction qs generalizing t with
  | nil => simp [totalWeight]
  | cons q qs ih =>
      obtain ⟨hq, hqs⟩ := List.forall_mem_cons.mp h
      rw [List.foldlM_cons, add_eq, hq, Option.map_some]
      refine (ih hqs _).trans ?_
      simp only [totalWeight, List.map_cons, List.sum_cons, add_assoc]

theorem totalWeight_cons (q : Question) (qs : List Question) :
    totalWeight (q :: qs) = q.weight + totalWeight qs := List.sum_cons

theorem maxScore_cons (q : Question) (qs : List Question) :
    maxScore (q :: qs) = (if 0 < q.weight then q.weight else 1) + maxScore qs := List.sum_cons

theorem weight_le (w : ℚ) : w ≤ if 0 < w then w else 1 := by
  split
  next => exact le_rfl
  next h => exact (not_lt.mp h).trans zero_le_one

theorem totalWeight_le_maxScore (qs : List Question) : totalWeight qs ≤ maxScore qs := by
  induction qs with
  | nil => exact le_rfl
  | cons q qs ih =>
      rw [totalWeight_cons, maxScore_cons]
      exact add_le_add (weight_le _) ih

/-- The best score is the total weight exactly if every weight is positive. -/
theorem maxScore_eq_iff : maxScore qs = totalWeight qs ↔ ∀ q ∈ qs, 0 < q.weight := by
  induction qs with
  | nil => exact iff_of_true rfl fun q hq => absurd hq List.not_mem_nil
  | cons q qs ih =>
      rw [totalWeight_cons, maxScore_cons, List.forall_mem_cons, ← ih]
      have hrest := totalWeight_le_maxScore qs
      by_cases hq : 0 < q.weight
      · rw [if_pos hq, add_right_inj, and_iff_right hq]
      · rw [if_neg hq]
        refine iff_of_false (fun h => ?_) fun h => hq h.1
        linarith [not_lt.mp hq]

theorem maxScore_pos (h : qs ≠ []) : 0 < maxScore qs := by
  have hpos : ∀ w : ℚ, 0 < if 0 < w then w else 1 := fun w => by
    split
    next h => exact h
    next => exact zero_lt_one
  induction qs with
  | nil => exact absurd rfl h
  | cons q qs ih =>
      rw [maxScore_cons]
      by_cases hqs : qs = []
      · subst hqs
        exact add_pos_of_pos_of_nonneg (hpos _) le_rfl
      · exact add_pos (hpos _) (ih hqs)

theorem gradeOf_parseAnswers {q : Question} (h : ∀ a ∈ answerTo answers q, Unescaped a) :
    gradeOf (parseAnswers (mapToJson answers)) q = gradeOf answers q := by
  unfold gradeOf
  rw [answerTo_parseAnswers]
  cases hanswer : answerTo answers q with
  | none => rfl
  | some a => rw [Option.map_some, jsonEscape_of_unescaped (h a hanswer)]

theorem exists_gradeOf (h : ∀ q ∈ qs, ∀ a ∈ answerTo answers q, Returns q a) :
    ∃ shown : Question → EvalDetail, ∀ q ∈ qs, gradeOf answers q = some (shown q) := by
  refine ⟨fun q => (gradeOf answers q).getD ⟨0, .unanswered⟩, fun q hq => ?_⟩
  have hsome : (gradeOf answers q).isSome = true := by
    unfold gradeOf
    cases hanswer : answerTo answers q with
    | none => rw [Option.getD_none, evaluate_nil, Option.isSome_some]
    | some a => exact isSome_evaluate_of_returns (h q hq a hanswer)
  obtain ⟨d, hd⟩ := Option.isSome_iff_exists.mp hsome
  simp only [hd, Option.getD_some]

/-- Answers without escapes are graded alike, so what is left is how the weights are counted. -/
theorem pageAgrees_iff_of_unescaped {stod : Bytes → Option ℚ} {questionsJson : Bytes}
    (hqs : parseQuestions stod questionsJson = qs)
    (hunescaped : ∀ q ∈ qs, ∀ a ∈ answerTo answers q, Unescaped a)
    (hreturns : ∀ q ∈ qs, ∀ a ∈ answerTo answers q, Returns q a) :
    PageAgrees stod questionsJson answers ↔
      totalWeight qs = 0 ∨ scoreSubmission qs answers = some 0 ∨ ∀ q ∈ qs, 0 < q.weight := by
  obtain ⟨shown, hshown⟩ := exists_gradeOf hreturns
  have hpage : evaluatedAnswers (parseAnswers (mapToJson answers)) qs = some (qs.map shown) :=
    mapM_eq_some_map fun q hq => (gradeOf_parseAnswers (hunescaped q hq)).trans (hshown q hq)
  unfold PageAgrees
  dsimp only
  rw [hqs, hpage]
  by_cases htotal : totalWeight qs = 0
  · exact iff_of_true (fun h => absurd htotal h) (Or.inl htotal)
  have hne : qs ≠ [] := fun hnil => htotal (by rw [hnil]; rfl)
  have hjson : questionsJson ≠ [] := by
    rintro rfl
    exact hne hqs.symm
  have hmax := maxScore_pos hne
  set earned := ((qs.map shown).map (·.earned)).sum with hearned
  have hscore : scoreSubmission qs answers = some (earned / totalWeight qs * 100) := by
    rw [scoreSubmission, tally_eq hshown, Option.map_some, hearned, List.map_map]
    simp only [zero_add]
    rw [if_neg htotal]
    rfl
  have hstored : scoreSubmissionJson stod questionsJson answers =
      some (some (earned / totalWeight qs * 100)) := by
    unfold scoreSubmissionJson
    rw [if_neg hjson, hqs, if_neg (by simpa using hne), hscore, Option.map_some]
  have hsame : earned / totalWeight qs * 100 = 100 * earned / maxScore qs ↔
      earned = 0 ∨ maxScore qs = totalWeight qs := by
    rw [div_mul_eq_mul_div, mul_comm earned, div_eq_div_iff htotal hmax.ne', mul_eq_mul_left_iff,
      mul_eq_zero, or_iff_right (by norm_num : (100 : ℚ) ≠ 0), or_comm]
  have hzero : earned / totalWeight qs * 100 = 0 ↔ earned = 0 := by
    simp [htotal]
  rw [hstored, hscore, or_iff_right htotal, ← maxScore_eq_iff, Option.some_inj, hzero, ← hsame]
  constructor
  · intro h
    obtain ⟨score, hstored, _, ⟨⟩, heq⟩ := h htotal
    cases hstored
    exact heq
  · exact fun h _ => ⟨_, rfl, _, rfl, h⟩

/-- Answers without escapes and positive weights are all that the two gradings need to agree. -/
structure Faithful (qs : List Question) (answers : StringMap) : Prop where
  weights : ∀ q ∈ qs, 0 < q.weight
  unescaped : ∀ q ∈ qs, ∀ a ∈ answerTo answers q, Unescaped a
  returns : ∀ q ∈ qs, ∀ a ∈ answerTo answers q, Returns q a

theorem pageAgrees_of_faithful (stod : Bytes → Option ℚ) (questionsJson : Bytes)
    (answers : StringMap) (h : Faithful (parseQuestions stod questionsJson) answers) :
    PageAgrees stod questionsJson answers :=
  (pageAgrees_iff_of_unescaped rfl h.unescaped h.returns).mpr (Or.inr (Or.inr h.weights))

end

/-- A number without fraction and exponent, as `stod` reads it. -/
def wholeNumber (s : Bytes) : Option ℚ := (strtol s).map fun n => (n : ℚ)

def choiceJson : Bytes :=
  str "[\x7b\"number\":1,\"type\":\"single_choice\",\"weight\":2,\"key\":\"A\"\x7d]"

/-- One question with two letters for its key. -/
def lettersJson : Bytes :=
  str ("[\x7b\"number\":1,\"type\":\"multiple_answer\",\"partial_scoring\":true," ++
    "\"key\":[\"A\",\"C\"]\x7d]")

def lettersAnswer : StringMap := OrderedMap.empty.insert (str "1") (str "[\"A\",\"C\"]")

theorem pageAgrees_choiceJson :
    PageAgrees wholeNumber choiceJson (OrderedMap.empty.insert (str "1") (str "a")) := by
  have hqs : parseQuestions wholeNumber choiceJson = [⟨1, str "single_choice", 2, str "A", false,
      str "\"A\""⟩] := by decide +kernel
  refine pageAgrees_of_faithful _ _ _ ?_
  rw [hqs]
  refine ⟨by decide +kernel, ?_, ?_⟩
  · rintro q hq a ha
    obtain rfl := List.mem_singleton.mp hq
    cases ha
    decide
  · rintro q hq a ha
    obtain rfl := List.mem_singleton.mp hq
    exact fun _ => ⟨fun _ => by decide +kernel, fun h => absurd h (by decide)⟩

/-- The right answer in full, with quotes in it. -/
theorem not_pageAgrees : ¬ ∀ questionsJson answers, PageAgrees wholeNumber questionsJson answers := by
  intro h
  have hqs : parseQuestions wholeNumber lettersJson = [⟨1, str "multiple_answer", 1, [], true,
      str "[\"A\",\"C\"]"⟩] := by decide +kernel
  obtain ⟨score, hscore, shown, hshown, hsame⟩ := h lettersJson lettersAnswer (by
    rw [hqs]
    decide +kernel)
  have hstored : scoreSubmissionJson wholeNumber lettersJson lettersAnswer = some (some 100) := by
    unfold scoreSubmissionJson
    rw [hqs]
    decide +kernel
  have hpage : evaluatedAnswers (parseAnswers (mapToJson lettersAnswer))
      (parseQuestions wholeNumber lettersJson) = some [⟨0, .incorrect⟩] := by
    rw [hqs]
    decide +kernel
  rw [hstored] at hscore
  rw [hpage] at hshown
  cases hscore
  cases hshown
  simp at hsame

end ExamVan.Public
