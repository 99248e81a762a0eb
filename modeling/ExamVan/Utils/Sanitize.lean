import Mathlib.Data.List.DropRight
import ExamVan.Lib.JsonText

/-!
# Stripping the answer keys

`strip_sensitive_keys` looks for the spelling `"key":` in the text, and for `"answer":` in what is
left, and erases each such member up to the end of its value. The text is held as the part before
the position where the next search starts, and the part from there on.
-/

namespace ExamVan.Utils

open ByteString JsonText

/-- The spelling that is searched for. -/
def needle (k : Bytes) : Bytes := chr '"' :: (k ++ str "\":")

/-- The scan for the end of a value, with the text from `end` as its result. -/
def valueEnd : Nat → Bool → Bool → Bytes → Bytes
  | _, _, _, [] => []
  | depth, inStr, esc, c :: s =>
      if esc then valueEnd depth inStr false s
      else if c = chr '\\' ∧ inStr then valueEnd depth inStr true s
      else if c = chr '"' then valueEnd depth (!inStr) false s
      else if inStr then valueEnd depth inStr false s
      else if c = chr '[' ∨ c = chr '{' then valueEnd (depth + 1) inStr false s
      else if c = chr ']' ∨ c = chr '}' then
        if depth = 0 then c :: s else valueEnd (depth - 1) inStr false s
      else if depth = 0 ∧ (c = chr ',' ∨ c = chr '}') then c :: s
      else valueEnd depth inStr false s

/-- A comma that follows an erased first member goes with it. -/
def dropComma : Bytes → Bytes
  | [] => []
  | c :: s => if c = chr ',' then s else c :: s

/-- One round of the loop, where it does not break. After a comma, the erased part starts at the
comma and is one byte longer than the member, however many blanks there are between the two. -/
def stripStep (k done rest : Bytes) : Option (Bytes × Bytes) :=
  match findSub (needle k) rest with
  | none => none
  | some found =>
      let head := done ++ rest.take (rest.length - found.length)
      let before := head.rdropWhile isBlank
      let v := (found.drop (needle k).length).dropWhile isBlank
      let tail := valueEnd 0 false false v
      if before.getLast? ≠ some (chr '{') ∧ before.getLast? ≠ some (chr ',') then
        some (head ++ needle k, found.drop (needle k).length)
      else if v.length ≤ tail.length then none
      else if before.getLast? = some (chr ',') then
        some (before.dropLast,
          (chr ',' :: (head.drop before.length ++ found)).drop (found.length - tail.length + 1))
      else some (head, dropComma tail)

/-! ### The loop ends -/

theorem valueEnd_length_le (depth : Nat) (inStr esc : Bool) (s : Bytes) :
    (valueEnd depth inStr esc s).length ≤ s.length := by
  induction s generalizing depth inStr esc with
  | nil => simp [valueEnd]
  | cons c s ih =>
      have hle : ∀ d b e, (valueEnd d b e s).length ≤ (c :: s).length :=
        fun d b e => (ih d b e).trans (by simp)
      simp only [valueEnd]
      split_ifs <;> first | exact hle _ _ _ | exact le_refl _

theorem dropComma_length_le (s : Bytes) : (dropComma s).length ≤ s.length := by
  cases s with
  | nil => exact le_refl _
  | cons c s =>
      simp only [dropComma]
      split <;> simp

/-- A round shortens the text, or leaves it and moves the search on. -/
theorem stripStep_decreases {k done rest d r : Bytes} (h : stripStep k done rest = some (d, r)) :
    d.length + r.length < done.length + rest.length ∨
      d.length + r.length = done.length + rest.length ∧ r.length < rest.length := by
  unfold stripStep at h
  cases hfind : findSub (needle k) rest with
  | none => simp [hfind] at h
  | some found =>
      obtain ⟨skip, rfl, after, rfl⟩ := exists_of_findSub hfind
      have htake : (skip ++ (needle k ++ after)).take
          ((skip ++ (needle k ++ after)).length - (needle k ++ after).length) = skip := by
        simp
      have hneedle : 0 < (needle k).length := by simp [needle]
      simp only [hfind, htake, List.drop_left] at h
      set v := after.dropWhile isBlank with hv
      have hvle : v.length ≤ after.length := List.length_dropWhile_le _ _
      have htail := valueEnd_length_le 0 false false v
      have hbefore : ((done ++ skip).rdropWhile isBlank).length ≤ (done ++ skip).length :=
        (List.rdropWhile_prefix _ _).length_le
      split_ifs at h with hmember hbreak hcomma
      · cases h
        right
        simp only [List.length_append] at *
        omega
      · cases h
        left
        have hne : (done ++ skip).rdropWhile isBlank ≠ [] := by
          intro hnil
          simp [hnil] at hcomma
        have hpos := List.length_pos_iff.mpr hne
        simp only [List.length_append, List.length_dropLast, List.length_drop, List.length_cons] at *
        omega
      · cases h
        left
        have hdrop := dropComma_length_le (valueEnd 0 false false v)
        simp only [List.length_append] at *
        omega

def stripLoop (k done rest : Bytes) : Bytes :=
  match _h : stripStep k done rest with
  | none => done ++ rest
  | some (d, r) => stripLoop k d r
termination_by (done.length + rest.length, rest.length)
decreasing_by
  simp only [Prod.lex_def]
  exact stripStep_decreases _h

/-- `strip_sensitive_keys`. -/
def stripSensitiveKeys (questionsJson : Bytes) : Bytes :=
  [str "key", str "answer"].foldl (fun out k => stripLoop k [] out) questionsJson

/-! ### Where it is used -/

/-- The questions of the answer of `exam_by_token`. -/
def studentQuestions (questionsJson : Option Bytes) : Bytes :=
  let qj := questionsJson.getD []
  if qj = [] then str "[]"
  else
    let stripped := stripSensitiveKeys qj
    if stripped = [] then str "[]" else stripped

/-- The questions of the public result API. -/
def resultQuestions (questionsJson : Option Bytes) (showAnswers : Int32) (logged : Bool) : Bytes :=
  let qj := questionsJson.getD []
  let out := if showAnswers = 0 ∧ !logged ∧ qj ≠ [] then stripSensitiveKeys qj else qj
  if out = [] then str "[]" else out

end ExamVan.Utils
