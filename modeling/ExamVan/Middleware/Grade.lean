import Mathlib.Algebra.Order.Field.Rat
import Mathlib.Data.List.Perm.Basic
import Mathlib.Tactic.FieldSimp
import Mathlib.Tactic.Linarith
import ExamVan.Middleware.Tokens

/-!
# Grades

A question with a set of tokens for its key counts the tokens of the answer that are in the key
against those that are not, each as often as the answer has it. A question with pairs counts the
pairs of the key that the answer has. Weights are exact here.
-/

namespace ExamVan.Middleware

open ByteString Queue

/-- What the grader reads of a question. -/
structure Question where
  number : Int32 := 0
  type : Bytes
  weight : ℚ := 1
  key : Bytes := []
  isPartial : Bool := false
  keyRaw : Bytes := []

inductive EvalStatus
  | correct
  | partially
  | incorrect
  | unanswered
  deriving DecidableEq

structure EvalDetail where
  earned : ℚ
  status : EvalStatus
  deriving DecidableEq

/-! ### Comparing -/

def setsEqual (a b : List Bytes) : Bool :=
  a.length = b.length && a.mergeSort (· ≤ ·) = b.mergeSort (· ≤ ·)

def setsEqualObj (a b : List KV) : Bool := a.length = b.length && a.all (· ∈ b)

/-- `single_key_token`. -/
def singleKeyToken (q : Question) : Option Bytes :=
  (parseSetTokens q.keyRaw).map fun tokens => tokens.head?.getD (normAns q.key)

/-! ### One question -/

def tolerance : ℚ := 1 / 1000000000

/-- A part of the weight. -/
def portionDetail (portion weight : ℚ) : EvalDetail where
  earned := portion * weight
  status :=
    if 1 - tolerance ≤ portion then .correct
    else if tolerance < portion then .partially
    else .incorrect

/-- All of the weight, or nothing. -/
def exactDetail (same : Bool) (weight : ℚ) : EvalDetail :=
  if same then ⟨weight, .correct⟩ else ⟨0, .incorrect⟩

def hits (key student : List Bytes) : Nat := student.countP (· ∈ key)

def misses (key student : List Bytes) : Nat := student.countP (· ∉ key)

def gradeSet (q : Question) (key student : List Bytes) : EvalDetail :=
  if q.isPartial then
    if key = [] then ⟨0, .incorrect⟩
    else
      portionDetail (max 0 (((hits key student : Int) - misses key student : Int) : ℚ) / key.length)
        q.weight
  else exactDetail (setsEqual student key) q.weight

def gradePairs (q : Question) (key student : List KV) : EvalDetail :=
  if q.isPartial then
    if key = [] then ⟨0, .incorrect⟩
    else portionDetail ((key.countP (· ∈ student) : ℚ) / key.length) q.weight
  else exactDetail (setsEqualObj key student) q.weight

def isSetType (type : Bytes) : Bool :=
  type = str "multiple_choice" || type = str "multiple_answer" || type = str "partial"

def answerText (answerRaw : Bytes) : Bytes := answerRaw.dropWhile isBlank

def isUnanswered (ans : Bytes) : Bool := ans = [] || ans = str "[]" || ans = str "\x7b\x7d"

/-- `evaluate_question_detail`; `none` if it does not return. -/
def evaluateQuestionDetail (q : Question) (answerRaw : Bytes) : Option EvalDetail :=
  let ans := answerText answerRaw
  if isUnanswered ans then some ⟨0, .unanswered⟩
  else if isSetType q.type then
    (parseSetTokens q.keyRaw).bind fun key =>
      (parseSetTokens ans).map fun student => gradeSet q key student
  else if q.type = str "matching" then
    (parseObjectPairs q.keyRaw).bind fun key =>
      (parseObjectPairs ans).map fun student => gradePairs q key student
  else (singleKeyToken q).map fun key => exactDetail (normAns ans = key) q.weight

/-! ### All questions -/

/-- The total weight and what has been earned. -/
structure Tally where
  total : ℚ := 0
  got : ℚ := 0

/-- The answer to a question. -/
def answerTo (answers : StringMap) (q : Question) : Option Bytes :=
  answers.find? (intText q.number.toInt)

/-- One question of the loop of `score_submission`. -/
def Tally.add (answers : StringMap) (t : Tally) (q : Question) : Option Tally :=
  let total := t.total + q.weight
  match answerTo answers q with
  | none => some { t with total := total }
  | some ans => (evaluateQuestionDetail q ans).map fun d => ⟨total, t.got + d.earned⟩

def scoreSubmission (qs : List Question) (answers : StringMap) : Option ℚ :=
  (qs.foldlM (Tally.add answers) {}).map fun t =>
    if t.total = 0 then 0 else t.got / t.total * 100

/-! ### Parts of the weight -/

section

variable {q : Question} {key ts : List Bytes} {ps keyPairs : List KV}

theorem setsEqual_iff {a b : List Bytes} : setsEqual a b = true ↔ a.Perm b := by
  simp only [setsEqual, Bool.and_eq_true, decide_eq_true_eq]
  constructor
  · rintro ⟨-, hsorted⟩
    have hb := List.mergeSort_perm b (· ≤ ·)
    rw [← hsorted] at hb
    exact (List.mergeSort_perm a (· ≤ ·)).symm.trans hb
  · intro hperm
    have hsorted : ∀ l : List Bytes, (l.mergeSort (· ≤ ·)).Pairwise (· ≤ ·) := fun l => by
      simpa using @List.pairwise_mergeSort _ (fun a b : Bytes => decide (a ≤ b))
        (fun a b c hab hbc => decide_eq_true ((of_decide_eq_true hab).trans (of_decide_eq_true hbc)))
        (fun a b => by simpa using le_total a b) l
    refine ⟨hperm.length_eq, List.Perm.eq_of_pairwise (fun _ _ _ _ => le_antisymm) (hsorted a)
      (hsorted b) ?_⟩
    exact (List.mergeSort_perm a _).trans (hperm.trans (List.mergeSort_perm b _).symm)

theorem earned_exactDetail (same : Bool) (w : ℚ) :
    (exactDetail same w).earned = if same then w else 0 := by
  cases same <;> rfl

theorem earned_exactDetail_bounds (same : Bool) {w : ℚ} (hw : 0 ≤ w) :
    0 ≤ (exactDetail same w).earned ∧ (exactDetail same w).earned ≤ w := by
  rw [earned_exactDetail]
  split
  · exact ⟨hw, le_rfl⟩
  · exact ⟨le_rfl, hw⟩

theorem mul_le_self_iff {p w : ℚ} (hw : 0 ≤ w) : p * w ≤ w ↔ (0 < w → p ≤ 1) := by
  rcases hw.eq_or_lt with rfl | hpos
  · simp
  · rw [mul_le_iff_le_one_left hpos]
    exact ⟨fun h _ => h, fun h => h hpos⟩

theorem length_pos_of_ne_nil {α : Type*} {l : List α} (h : l ≠ []) : (0 : ℚ) < l.length :=
  Nat.cast_pos.mpr (List.length_pos_iff.mpr h)

theorem earned_gradeSet_nonneg (hw : 0 ≤ q.weight) : 0 ≤ (gradeSet q key ts).earned := by
  unfold gradeSet
  split
  · split
    · exact le_rfl
    · exact mul_nonneg (div_nonneg (le_max_left _ _) (Nat.cast_nonneg _)) hw
  · exact (earned_exactDetail_bounds _ hw).1

/-- What an answer earns is more than the weight only for its repeated tokens. -/
theorem earned_gradeSet_le_iff (hw : 0 ≤ q.weight) :
    (gradeSet q key ts).earned ≤ q.weight ↔
      (q.isPartial = true → 0 < q.weight → hits key ts ≤ key.length + misses key ts) := by
  unfold gradeSet
  cases q.isPartial with
  | false =>
      refine iff_of_true (earned_exactDetail_bounds _ hw).2 fun h => ?_
      cases h
  | true =>
      rw [if_pos rfl]
      by_cases hkey : key = []
      · subst hkey
        refine iff_of_true hw fun _ _ => ?_
        simp [hits]
      · rw [if_neg hkey, portionDetail, mul_le_self_iff hw, div_le_one₀ (length_pos_of_ne_nil hkey),
          max_le_iff]
        have hcast : (((hits key ts : Int) - misses key ts : Int) : ℚ) ≤ key.length ↔
            hits key ts ≤ key.length + misses key ts := by
          rw [← Int.cast_natCast key.length, Int.cast_le]
          omega
        rw [hcast]
        simp

/-- An answer without repeated tokens hits no more often than the key is long. -/
theorem hits_le_of_nodup (h : ts.Nodup) : hits key ts ≤ key.length := by
  rw [hits, List.countP_eq_length_filter]
  refine (List.subperm_of_subset (h.filter _) fun t ht => ?_).length_le
  simpa using (List.mem_filter.mp ht).2

theorem earned_gradePairs (hw : 0 ≤ q.weight) :
    0 ≤ (gradePairs q keyPairs ps).earned ∧ (gradePairs q keyPairs ps).earned ≤ q.weight := by
  unfold gradePairs
  split
  · split
    · exact ⟨le_rfl, hw⟩
    next hkey =>
      refine ⟨mul_nonneg (div_nonneg (Nat.cast_nonneg _) (Nat.cast_nonneg _)) hw,
        (mul_le_self_iff hw).mpr fun _ => ?_⟩
      rw [div_le_one₀ (length_pos_of_ne_nil hkey), Nat.cast_le]
      exact List.countP_le_length
  · exact earned_exactDetail_bounds _ hw

/-! ### Repeated tokens and pairs -/

/-- A list with another copy of one of its elements, anywhere. -/
def IsRepeat {α : Type*} (x : α) (xs xs' : List α) : Prop :=
  x ∈ xs ∧ ∃ first rest, xs = first ++ rest ∧ xs' = first ++ x :: rest

/-- Another copy of the token does not help. -/
def SetFair (q : Question) (key ts : List Bytes) (x : Bytes) : Prop :=
  if q.isPartial then x ∈ key → hits key ts < misses key ts else ¬ key.Perm (x :: ts)

theorem IsRepeat.perm {α : Type*} {x : α} {xs xs' : List α} (h : IsRepeat x xs xs') :
    xs'.Perm (x :: xs) := by
  obtain ⟨-, first, rest, rfl, rfl⟩ := h
  exact List.perm_middle

/-- What the answer earns depends on the multiset of its tokens only. -/
theorem gradeSet_perm {ts' : List Bytes} (h : ts.Perm ts') : gradeSet q key ts = gradeSet q key ts' := by
  have hsame : setsEqual ts key = setsEqual ts' key := by
    rw [Bool.eq_iff_iff, setsEqual_iff, setsEqual_iff]
    exact ⟨h.symm.trans, h.trans⟩
  unfold gradeSet hits misses
  rw [h.countP_eq, h.countP_eq, hsame]

theorem hits_cons (x : Bytes) :
    hits key (x :: ts) = hits key ts + (decide (x ∈ key)).toNat := by
  by_cases hx : x ∈ key <;> simp [hits, hx]

theorem misses_cons (x : Bytes) :
    misses key (x :: ts) = misses key ts + (decide (x ∉ key)).toNat := by
  by_cases hx : x ∈ key <;> simp [misses, hx]

/-- The balance of hits and misses decides between two answers. -/
theorem earned_le_iff_of_isPartial (hw : 0 ≤ q.weight) (hcount : q.isPartial = true)
    (hkey : key ≠ []) {ts' : List Bytes} :
    (gradeSet q key ts').earned ≤ (gradeSet q key ts).earned ↔
      (0 < q.weight → hits key ts' + misses key ts ≤ hits key ts + misses key ts' ∨
        hits key ts' ≤ misses key ts') := by
  have hn := length_pos_of_ne_nil hkey
  unfold gradeSet
  rw [if_pos hcount, if_pos hcount, if_neg hkey, if_neg hkey, portionDetail, portionDetail]
  rcases hw.eq_or_lt with hzero | hpos
  · simp [← hzero]
  · rw [mul_le_mul_iff_left₀ hpos, div_le_div_iff_of_pos_right hn]
    have hcast : ∀ a b : Int, max 0 (a : ℚ) ≤ max 0 (b : ℚ) ↔ a ≤ b ∨ a ≤ 0 := by
      intro a b
      rw [← Int.cast_zero, ← Int.cast_max, ← Int.cast_max, Int.cast_le]
      omega
    rw [hcast]
    constructor
    · intro h _
      omega
    · intro h
      have := h hpos
      omega

/-- Another copy of a token raises what is earned exactly if it is not fair. -/
theorem earned_gradeSet_cons_le_iff (hw : 0 ≤ q.weight) {x : Bytes} :
    (gradeSet q key (x :: ts)).earned ≤ (gradeSet q key ts).earned ↔
      (0 < q.weight → SetFair q key ts x) := by
  unfold SetFair
  cases hcount : q.isPartial with
  | true =>
      rw [if_pos rfl]
      by_cases hkey : key = []
      · subst hkey
        refine iff_of_true ?_ fun _ hx => absurd hx List.not_mem_nil
        simp [gradeSet, hcount]
      · rw [earned_le_iff_of_isPartial hw hcount hkey, hits_cons, misses_cons]
        by_cases hx : x ∈ key
        · have hadded : (decide (x ∈ key)).toNat = 1 ∧ (decide (x ∉ key)).toNat = 0 := by simp [hx]
          rw [hadded.1, hadded.2]
          refine imp_congr_right fun _ => ⟨fun h _ => ?_, fun h => ?_⟩
          · omega
          · have := h hx
            omega
        · refine iff_of_true (fun _ => Or.inl ?_) fun _ hmem => absurd hmem hx
          have hadded : (decide (x ∈ key)).toNat = 0 := by simp [hx]
          omega
  | false =>
      rw [if_neg Bool.false_ne_true]
      unfold gradeSet
      rw [hcount, if_neg Bool.false_ne_true, if_neg Bool.false_ne_true, earned_exactDetail,
        earned_exactDetail]
      by_cases hperm : key.Perm (x :: ts)
      · have hafter : setsEqual (x :: ts) key = true := setsEqual_iff.mpr hperm.symm
        have hbefore : ¬ setsEqual ts key = true := fun h => by
          have := (setsEqual_iff.mp h).length_eq.trans hperm.length_eq
          simp at this
        rw [if_pos hafter, if_neg hbefore]
        exact ⟨fun h hpos => absurd hpos h.not_gt, fun h => not_lt.mp fun hpos => h hpos hperm⟩
      · have hafter : ¬ setsEqual (x :: ts) key = true := fun h => hperm (setsEqual_iff.mp h).symm
        rw [if_neg hafter]
        refine iff_of_true ?_ fun _ => hperm
        split
        · exact hw
        · exact le_rfl

/-! ### Pairs -/

/-- Another copy of a pair does not help. -/
def PairFair (q : Question) (unanswered : Bool) (key ps : List KV) : Prop :=
  if q.isPartial then unanswered = true → ∀ kv ∈ key, kv ∉ ps
  else ¬ (key.length = ps.length + 1 ∧ ∀ kv ∈ key, kv ∈ ps)

theorem setsEqualObj_iff {a b : List KV} :
    setsEqualObj a b = true ↔ a.length = b.length ∧ ∀ kv ∈ a, kv ∈ b := by
  simp [setsEqualObj]

/-- The same for an answer that counts as none but has one token. -/
theorem earned_gradeSet_pair_le_zero_iff (hw : 0 ≤ q.weight) {x : Bytes} :
    (gradeSet q key [x, x]).earned ≤ 0 ↔ (0 < q.weight → SetFair q key [x] x) := by
  unfold SetFair
  cases hcount : q.isPartial with
  | true =>
      rw [if_pos rfl]
      by_cases hkey : key = []
      · subst hkey
        refine iff_of_true ?_ fun _ hx => absurd hx List.not_mem_nil
        simp [gradeSet, hcount]
      · have hnothing : (gradeSet q key []).earned = 0 := by
          simp [gradeSet, hcount, hkey, hits, misses, portionDetail]
        have hle : (gradeSet q key [x, x]).earned ≤ (gradeSet q key []).earned ↔ _ :=
          earned_le_iff_of_isPartial hw hcount hkey
        rw [hnothing] at hle
        rw [hle]
        refine imp_congr_right fun _ => ?_
        by_cases hx : x ∈ key <;> simp [hits, misses, hx]
  | false =>
      rw [if_neg Bool.false_ne_true]
      unfold gradeSet
      rw [hcount, if_neg Bool.false_ne_true, earned_exactDetail]
      by_cases hperm : key.Perm [x, x]
      · rw [if_pos (setsEqual_iff.mpr hperm.symm)]
        exact ⟨fun h hpos => absurd hpos h.not_gt, fun h => not_lt.mp fun hpos => h hpos hperm⟩
      · rw [if_neg fun h => hperm (setsEqual_iff.mp h).symm]
        exact iff_of_true le_rfl fun _ => hperm

/-- Another copy of a pair raises what is earned exactly if it is not fair. -/
theorem earned_gradePairs_repeat_le_iff (hw : 0 ≤ q.weight) {x : KV} {ps' : List KV}
    (hrepeat : IsRepeat x ps ps') (unanswered : Bool) :
    (gradePairs q keyPairs ps').earned ≤
        (if unanswered then 0 else (gradePairs q keyPairs ps).earned) ↔
      (0 < q.weight → PairFair q unanswered keyPairs ps) := by
  have hmem : ∀ kv, kv ∈ ps' ↔ kv ∈ ps := fun kv => by
    rw [hrepeat.perm.mem_iff, List.mem_cons]
    exact ⟨fun h => h.elim (fun heq => heq ▸ hrepeat.1) id, Or.inr⟩
  have hlength : ps'.length = ps.length + 1 := hrepeat.perm.length_eq
  unfold PairFair gradePairs
  cases q.isPartial with
  | true =>
      rw [if_pos rfl, if_pos rfl, if_pos rfl]
      by_cases hkey : keyPairs = []
      · subst hkey
        refine iff_of_true (by simp) fun _ _ kv hkv => absurd hkv List.not_mem_nil
      · have hcount : keyPairs.countP (· ∈ ps') = keyPairs.countP (· ∈ ps) :=
          List.countP_congr fun kv _ => by simp [hmem]
        rw [if_neg hkey, if_neg hkey, hcount]
        cases unanswered with
        | false => exact iff_of_true le_rfl fun _ h => by cases h
        | true =>
            rw [if_pos rfl, portionDetail]
            rcases hw.eq_or_lt with hzero | hpos
            · simp [← hzero]
            · have hnone : keyPairs.countP (· ∈ ps) ≤ 0 ↔ ∀ kv ∈ keyPairs, kv ∉ ps := by
                simp
              rw [← not_lt, mul_pos_iff_of_pos_right hpos, not_lt,
                div_le_iff₀ (length_pos_of_ne_nil hkey), zero_mul, ← Nat.cast_zero, Nat.cast_le, hnone]
              exact ⟨fun h _ _ => h, fun h => h hpos rfl⟩
  | false =>
      rw [if_neg Bool.false_ne_true, if_neg Bool.false_ne_true, if_neg Bool.false_ne_true,
        earned_exactDetail, earned_exactDetail]
      have hafter : setsEqualObj keyPairs ps' = true ↔
          keyPairs.length = ps.length + 1 ∧ ∀ kv ∈ keyPairs, kv ∈ ps := by
        simp only [setsEqualObj_iff, hlength, hmem]
      by_cases hgain : keyPairs.length = ps.length + 1 ∧ ∀ kv ∈ keyPairs, kv ∈ ps
      · have hbefore : ¬ setsEqualObj keyPairs ps = true := fun h => by
          have := (setsEqualObj_iff.mp h).1
          omega
        rw [if_pos (hafter.mpr hgain), if_neg hbefore, ite_self]
        exact ⟨fun h hpos => absurd hpos h.not_gt, fun h => not_lt.mp fun hpos => h hpos hgain⟩
      · rw [if_neg fun h => hgain (hafter.mp h)]
        refine iff_of_true ?_ fun _ => hgain
        split
        · exact le_rfl
        · split
          · exact hw
          · exact le_rfl

end

/-! ### What a question promises -/

/-- An answer with another copy of one of the tokens or pairs of the first one. -/
def Repeats (q : Question) (answerRaw answerRaw' : Bytes) : Prop :=
  (isSetType q.type = true ∧ ∃ x, ∃ ts ∈ parseSetTokens (answerText answerRaw),
    ∃ ts' ∈ parseSetTokens (answerText answerRaw'), IsRepeat x ts ts') ∨
  (q.type = str "matching" ∧ ∃ x, ∃ ps ∈ parseObjectPairs (answerText answerRaw),
    ∃ ps' ∈ parseObjectPairs (answerText answerRaw'), IsRepeat x ps ps')

/-- No text that the question reads has a token that begins with `]`. -/
def Returns (q : Question) (answerRaw : Bytes) : Prop :=
  isUnanswered (answerText answerRaw) = false →
    (q.type ≠ str "matching" → (parseSetTokens q.keyRaw).isSome = true) ∧
      (isSetType q.type = true → (parseSetTokens (answerText answerRaw)).isSome = true)

/-- The texts of a question and its answer leave nothing to gain. -/
structure Sound (q : Question) (answerRaw : Bytes) : Prop where
  returns : Returns q answerRaw
  bounded : isUnanswered (answerText answerRaw) = false → isSetType q.type = true →
    q.isPartial = true → 0 < q.weight → ∀ key ∈ parseSetTokens q.keyRaw,
      ∀ ts ∈ parseSetTokens (answerText answerRaw), hits key ts ≤ key.length + misses key ts
  sets : isSetType q.type = true → ∀ ts ∈ parseSetTokens (answerText answerRaw),
    ∀ answerRaw' x, ∀ ts' ∈ parseSetTokens (answerText answerRaw'), IsRepeat x ts ts' →
      ∀ key ∈ parseSetTokens q.keyRaw, 0 < q.weight → SetFair q key ts x
  pairs : q.type = str "matching" → ∀ ps ∈ parseObjectPairs (answerText answerRaw),
    ∀ answerRaw' x, ∀ ps' ∈ parseObjectPairs (answerText answerRaw'), IsRepeat x ps ps' →
      ∀ key ∈ parseObjectPairs q.keyRaw, 0 < q.weight →
        PairFair q (isUnanswered (answerText answerRaw)) key ps

/-- All questions give a part of their weight and the submission a score of 0 to 100, and repeating
oneself earns nothing. -/
structure Graded (qs : List Question) (answers : StringMap) : Prop where
  earned : ∀ q ∈ qs, ∀ ans ∈ answerTo answers q,
    ∃ d ∈ evaluateQuestionDetail q ans, 0 ≤ d.earned ∧ d.earned ≤ q.weight
  score : ∃ score ∈ scoreSubmission qs answers, 0 ≤ score ∧ score ≤ 100
  repeated : ∀ q ∈ qs, ∀ ans ∈ answerTo answers q, ∀ ans', Repeats q ans ans' →
    ∀ d ∈ evaluateQuestionDetail q ans, ∀ d' ∈ evaluateQuestionDetail q ans', d'.earned ≤ d.earned

section

variable {q : Question} {answerRaw answerRaw' : Bytes}

theorem not_matching_of_isSetType (h : isSetType q.type = true) : q.type ≠ str "matching" := by
  intro hmatching
  rw [hmatching] at h
  exact absurd h (by decide)

theorem evaluate_of_unanswered (h : isUnanswered (answerText answerRaw) = true) :
    evaluateQuestionDetail q answerRaw = some ⟨0, .unanswered⟩ := by
  unfold evaluateQuestionDetail
  exact if_pos h

theorem evaluate_set (h : isUnanswered (answerText answerRaw) = false)
    (hset : isSetType q.type = true) :
    evaluateQuestionDetail q answerRaw = (parseSetTokens q.keyRaw).bind fun key =>
      (parseSetTokens (answerText answerRaw)).map fun ts => gradeSet q key ts := by
  unfold evaluateQuestionDetail
  exact (if_neg (ne_true_of_eq_false h)).trans (if_pos hset)

theorem evaluate_matching (h : isUnanswered (answerText answerRaw) = false)
    (hmatching : q.type = str "matching") :
    evaluateQuestionDetail q answerRaw = (parseObjectPairs q.keyRaw).bind fun key =>
      (parseObjectPairs (answerText answerRaw)).map fun ps => gradePairs q key ps := by
  unfold evaluateQuestionDetail
  have hset : ¬ isSetType q.type = true := fun hset => not_matching_of_isSetType hset hmatching
  exact (if_neg (ne_true_of_eq_false h)).trans ((if_neg hset).trans (if_pos hmatching))

theorem evaluate_single (h : isUnanswered (answerText answerRaw) = false)
    (hset : ¬ isSetType q.type = true) (hmatching : q.type ≠ str "matching") :
    evaluateQuestionDetail q answerRaw = (singleKeyToken q).map fun key =>
      exactDetail (normAns (answerText answerRaw) = key) q.weight := by
  unfold evaluateQuestionDetail
  exact (if_neg (ne_true_of_eq_false h)).trans ((if_neg hset).trans (if_neg hmatching))

theorem isSome_evaluate_of_returns (h : Returns q answerRaw) :
    (evaluateQuestionDetail q answerRaw).isSome = true := by
  cases hans : isUnanswered (answerText answerRaw) with
  | true =>
      rw [evaluate_of_unanswered hans]
      rfl
  | false =>
      obtain ⟨hkey, hanswer⟩ := h hans
      by_cases hset : isSetType q.type = true
      · obtain ⟨key, hkey⟩ := Option.isSome_iff_exists.mp (hkey (not_matching_of_isSetType hset))
        obtain ⟨ts, hts⟩ := Option.isSome_iff_exists.mp (hanswer hset)
        rw [evaluate_set hans hset, hkey, hts]
        rfl
      · by_cases hmatching : q.type = str "matching"
        · obtain ⟨key, hkey⟩ := Option.isSome_iff_exists.mp (isSome_parseObjectPairs q.keyRaw)
          obtain ⟨ps, hps⟩ :=
            Option.isSome_iff_exists.mp (isSome_parseObjectPairs (answerText answerRaw))
          rw [evaluate_matching hans hmatching, hkey, hps]
          rfl
        · obtain ⟨key, hkey⟩ := Option.isSome_iff_exists.mp (hkey hmatching)
          rw [evaluate_single hans hset hmatching, singleKeyToken, hkey]
          rfl

/-- A question gives a part of its weight exactly if it returns and the repeated tokens of the answer
are not too many. -/
theorem earned_iff (hw : 0 ≤ q.weight) :
    (∃ d ∈ evaluateQuestionDetail q answerRaw, 0 ≤ d.earned ∧ d.earned ≤ q.weight) ↔
      Returns q answerRaw ∧
        (isUnanswered (answerText answerRaw) = false → isSetType q.type = true →
          q.isPartial = true → 0 < q.weight → ∀ key ∈ parseSetTokens q.keyRaw,
            ∀ ts ∈ parseSetTokens (answerText answerRaw),
              hits key ts ≤ key.length + misses key ts) := by
  unfold Returns
  cases hans : isUnanswered (answerText answerRaw) with
  | true =>
      rw [evaluate_of_unanswered hans]
      have hnot : ¬ true = false := Bool.false_ne_true.symm
      exact iff_of_true ⟨_, rfl, le_rfl, hw⟩ ⟨fun h => absurd h hnot, fun h => absurd h hnot⟩
  | false =>
      by_cases hset : isSetType q.type = true
      · have htype := not_matching_of_isSetType hset
        rw [evaluate_set hans hset]
        cases hkey : parseSetTokens q.keyRaw with
        | none => simp [htype]
        | some key =>
            cases hts : parseSetTokens (answerText answerRaw) with
            | none => simp [hset]
            | some ts => simp [hset, earned_gradeSet_nonneg hw, earned_gradeSet_le_iff hw]
      · by_cases hmatching : q.type = str "matching"
        · obtain ⟨key, hkey⟩ := Option.isSome_iff_exists.mp (isSome_parseObjectPairs q.keyRaw)
          obtain ⟨ps, hps⟩ :=
            Option.isSome_iff_exists.mp (isSome_parseObjectPairs (answerText answerRaw))
          rw [evaluate_matching hans hmatching, hkey, hps]
          refine iff_of_true ⟨_, rfl, earned_gradePairs hw⟩ ⟨fun _ => ?_, fun _ h => absurd h hset⟩
          exact ⟨fun h => absurd hmatching h, fun h => absurd h hset⟩
        · rw [evaluate_single hans hset hmatching, singleKeyToken]
          cases hkey : parseSetTokens q.keyRaw with
          | none => simp [hmatching]
          | some key =>
              refine iff_of_true ⟨_, rfl, earned_exactDetail_bounds _ hw⟩ ⟨fun _ => ?_, fun _ h => absurd h hset⟩
              exact ⟨fun _ => rfl, fun h => absurd h hset⟩

/-- An answer that counts as none has at most one token and at most one pair. -/
theorem length_of_unanswered {ans : Bytes} (h : isUnanswered ans = true) :
    (∀ ts ∈ parseSetTokens ans, ts.length ≤ 1) ∧ ∀ ps ∈ parseObjectPairs ans, ps.length ≤ 1 := by
  simp only [isUnanswered, Bool.or_eq_true, decide_eq_true_eq] at h
  rcases h with (rfl | rfl) | rfl <;> decide

theorem repeated_set_iff (hw : 0 ≤ q.weight) (hset : isSetType q.type = true) {x : Bytes}
    {ts ts' : List Bytes} (hts : ts ∈ parseSetTokens (answerText answerRaw))
    (hts' : ts' ∈ parseSetTokens (answerText answerRaw')) (hrepeat : IsRepeat x ts ts') :
    (∀ d ∈ evaluateQuestionDetail q answerRaw, ∀ d' ∈ evaluateQuestionDetail q answerRaw',
        d'.earned ≤ d.earned) ↔
      ∀ key ∈ parseSetTokens q.keyRaw, 0 < q.weight → SetFair q key ts x := by
  have hlength : ts'.length = ts.length + 1 := hrepeat.perm.length_eq
  have hans' : isUnanswered (answerText answerRaw') = false := by
    refine Bool.eq_false_of_not_eq_true fun h => ?_
    have hone := (length_of_unanswered h).1 ts' hts'
    have hpos := List.length_pos_of_mem hrepeat.1
    omega
  rw [evaluate_set hans' hset, Option.mem_def.mp hts']
  cases hkey : parseSetTokens q.keyRaw with
  | none => simp
  | some key =>
      simp only [Option.bind_some, Option.map_some, Option.mem_some, forall_eq',
        gradeSet_perm hrepeat.perm]
      cases hans : isUnanswered (answerText answerRaw) with
      | true =>
          have hone : ts = [x] := by
            have hle := (length_of_unanswered hans).1 ts hts
            have hpos := List.length_pos_of_mem hrepeat.1
            obtain ⟨y, hy⟩ := List.length_eq_one_iff.mp (Nat.le_antisymm hle hpos)
            have hx := hrepeat.1
            rw [hy, List.mem_singleton] at hx
            rw [hy, hx]
          rw [evaluate_of_unanswered hans, hone]
          simpa using earned_gradeSet_pair_le_zero_iff hw
      | false =>
          rw [evaluate_set hans hset, hkey, Option.mem_def.mp hts]
          simpa using earned_gradeSet_cons_le_iff hw

theorem repeated_pairs_iff (hw : 0 ≤ q.weight) (hmatching : q.type = str "matching") {x : KV}
    {ps ps' : List KV} (hps : ps ∈ parseObjectPairs (answerText answerRaw))
    (hps' : ps' ∈ parseObjectPairs (answerText answerRaw')) (hrepeat : IsRepeat x ps ps') :
    (∀ d ∈ evaluateQuestionDetail q answerRaw, ∀ d' ∈ evaluateQuestionDetail q answerRaw',
        d'.earned ≤ d.earned) ↔
      ∀ key ∈ parseObjectPairs q.keyRaw, 0 < q.weight →
        PairFair q (isUnanswered (answerText answerRaw)) key ps := by
  have hlength : ps'.length = ps.length + 1 := hrepeat.perm.length_eq
  have hans' : isUnanswered (answerText answerRaw') = false := by
    refine Bool.eq_false_of_not_eq_true fun h => ?_
    have hone := (length_of_unanswered h).2 ps' hps'
    have hpos := List.length_pos_of_mem hrepeat.1
    omega
  obtain ⟨key, hkey⟩ := Option.isSome_iff_exists.mp (isSome_parseObjectPairs q.keyRaw)
  rw [evaluate_matching hans' hmatching, Option.mem_def.mp hps', hkey]
  have hiff : _ ↔ (0 < q.weight → PairFair q _ key ps) :=
    earned_gradePairs_repeat_le_iff hw hrepeat (isUnanswered (answerText answerRaw))
  cases hans : isUnanswered (answerText answerRaw) with
  | true =>
      rw [hans] at hiff
      rw [evaluate_of_unanswered hans]
      simpa using hiff
  | false =>
      rw [hans] at hiff
      rw [evaluate_matching hans hmatching, hkey, Option.mem_def.mp hps]
      simpa using hiff

/-- The loop of `score_submission` never has more earned than the weights so far. -/
theorem tally_of_earned {answers : StringMap} {qs : List Question}
    (hweights : ∀ q ∈ qs, 0 ≤ q.weight)
    (hearned : ∀ q ∈ qs, ∀ ans ∈ answerTo answers q,
      ∃ d ∈ evaluateQuestionDetail q ans, 0 ≤ d.earned ∧ d.earned ≤ q.weight)
    (t : Tally) (hgot : 0 ≤ t.got) (htotal : t.got ≤ t.total) :
    ∃ t' ∈ qs.foldlM (Tally.add answers) t, 0 ≤ t'.got ∧ t'.got ≤ t'.total := by
  induction qs generalizing t with
  | nil => exact ⟨t, rfl, hgot, htotal⟩
  | cons q qs ih =>
      obtain ⟨hw, hweights⟩ := List.forall_mem_cons.mp hweights
      obtain ⟨hq, hearned⟩ := List.forall_mem_cons.mp hearned
      have hstep : ∃ t' ∈ Tally.add answers t q, 0 ≤ t'.got ∧ t'.got ≤ t'.total := by
        unfold Tally.add
        cases hans : answerTo answers q with
        | none => exact ⟨_, rfl, hgot, htotal.trans (le_add_of_nonneg_right hw)⟩
        | some ans =>
            obtain ⟨d, hd, hnonneg, hle⟩ := hq ans hans
            exact ⟨_, Option.mem_map_of_mem _ hd, add_nonneg hgot hnonneg, add_le_add htotal hle⟩
      obtain ⟨t', ht', hgot', htotal'⟩ := hstep
      rw [List.foldlM_cons, Option.mem_def.mp ht']
      exact ih hweights hearned t' hgot' htotal'

/-- Questions that give a part of their weight add up to a score of 0 to 100. -/
theorem score_of_earned {qs : List Question} {answers : StringMap}
    (hweights : ∀ q ∈ qs, 0 ≤ q.weight)
    (hearned : ∀ q ∈ qs, ∀ ans ∈ answerTo answers q,
      ∃ d ∈ evaluateQuestionDetail q ans, 0 ≤ d.earned ∧ d.earned ≤ q.weight) :
    ∃ score ∈ scoreSubmission qs answers, 0 ≤ score ∧ score ≤ 100 := by
  obtain ⟨t, ht, hgot, htotal⟩ := tally_of_earned hweights hearned {} le_rfl le_rfl
  refine ⟨_, Option.mem_map_of_mem _ ht, ?_⟩
  split
  · exact ⟨le_rfl, by norm_num⟩
  next hne =>
    have hpos : 0 < t.total := lt_of_le_of_ne (hgot.trans htotal) (Ne.symm hne)
    have hone : t.got / t.total ≤ 1 := (div_le_one₀ hpos).mpr htotal
    have hnonneg : 0 ≤ t.got / t.total := div_nonneg hgot hpos.le
    constructor <;> linarith

end

def choiceQuestion : Question :=
  { number := 1
    type := str "single_choice"
    key := str "A"
    keyRaw := str "\"A\"" }

/-- Partial credit for a key of one token. -/
def setQuestion : Question :=
  { number := 1
    type := str "multiple_choice"
    isPartial := true
    keyRaw := str "[\"A\"]" }

end ExamVan.Middleware
