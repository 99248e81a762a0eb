import ExamVan.Lib.JsonDepth
import ExamVan.Lib.JsonNames
import ExamVan.Middleware.Grade
import ExamVan.Middleware.Scoring
import ExamVan.Queue.Job

/-!
# The questions in a JSON text

In an array of objects every object is taken out whole, in order. In the text of an object
`extract_raw_value` and `json_bool_field` go to the first place where the quoted name stands and from
there to the first colon, whatever the name and the colon are part of.
-/

/-!
## Reading the questions

`parse_questions` takes every outermost object with a quoted `number` in it for a question. The fields
are searched for in the text of the object, each by a search of its own kind. How a number is read is
up to `stod`.
-/

namespace ExamVan.Middleware

open ByteString
open Queue (StringMap isBlank scanString objectText needle)

/-- The text of an array or object from its opening bracket to the one that closes it, and the text
behind it. Brackets of both kinds count, those in strings do not. -/
def bracketed : Int → Bool → Bool → Bytes → Option (Bytes × Bytes)
  | _, _, _, [] => none
  | depth, inStr, esc, c :: s =>
      let onward (depth : Int) (inStr esc : Bool) : Option (Bytes × Bytes) :=
        (bracketed depth inStr esc s).map fun r => (c :: r.1, r.2)
      if esc then onward depth inStr false
      else if c = chr '\\' ∧ inStr then onward depth inStr true
      else if c = chr '"' then onward depth (!inStr) false
      else if inStr then onward depth inStr false
      else if c = chr '[' ∨ c = chr '\x7b' then onward (depth + 1) inStr false
      else if c = chr ']' ∨ c = chr '\x7d' then
        if depth - 1 = 0 then some ([c], s) else onward (depth - 1) inStr false
      else onward depth inStr false

/-! ### Fields -/

section

-- `std::stod`, with `none` where it throws
variable (stod : Bytes → Option ℚ)

/-- The number behind a colon, or the default if there is something else. -/
def numberMember (obj k : Bytes) (dflt : ℚ) (t : Bytes) : Option ℚ :=
  match t.dropWhile isBlank with
  | [] => none
  | c :: u =>
      if c = chr ':' then
        match u.dropWhile isBlank with
        | [] => none
        | d :: w =>
            let text :=
              if d = chr '"' then extractStr obj k
              else (d :: w).takeWhile fun c => !(c = chr ',' || c = chr '\x7d')
            some ((stod text).getD dflt)
      else none

/-- The loop of `extract_double`. -/
def doubleFrom (obj k : Bytes) (dflt : ℚ) : Bool → Bool → Bytes → ℚ
  | _, _, [] => dflt
  | inStr, esc, c :: s =>
      let found :=
        if !inStr && !esc && decide (quotedName k <+: c :: s) then
          numberMember stod obj k dflt (s.drop (k.length + 1))
        else none
      found.getD
        (if esc then doubleFrom obj k dflt inStr false s
        else if c = chr '\\' ∧ inStr then doubleFrom obj k dflt inStr true s
        else if c = chr '"' then doubleFrom obj k dflt (!inStr) false s
        else doubleFrom obj k dflt inStr false s)

def extractDouble (obj k : Bytes) (dflt : ℚ) : ℚ := doubleFrom stod obj k dflt false false obj

/-- `extract_int`: the number without its fraction. -/
def extractInt (obj k : Bytes) (dflt : Int32) : Int32 :=
  let x := extractDouble stod obj k dflt.toInt
  Int32.ofInt (x.num.tdiv x.den)

end

/-- `extract_raw_value`: the text of a value as it is spelled. -/
def extractRawValue (obj k : Bytes) : Bytes :=
  match findSub (needle k) obj with
  | none => []
  | some t =>
      match findByte (· = chr ':') (t.drop (needle k).length) with
      | none => []
      | some u =>
          match u.tail.dropWhile isBlank with
          | [] => []
          | c :: v =>
              if c = chr '"' then
                match scanString v with
                | none => []
                | some r => c :: (r.1 ++ [chr '"'])
              else if c = chr '[' ∨ c = chr '\x7b' then
                match bracketed 0 false false (c :: v) with
                | none => []
                | some r => r.1
              else (c :: v).takeWhile fun c => !(c = chr ',' || c = chr '\x7d' || c = chr ']')

def jsonBoolField (obj k : Bytes) : Bool :=
  match findSub (needle k) obj with
  | none => false
  | some t =>
      match findByte (· = chr ':') t with
      | none => false
      | some u => decide (str "true" <+: u.tail.dropWhile isBlank)

/-! ### Questions -/

deriving instance DecidableEq for Question

/-- The first text that is not empty. -/
def firstText (a b : Bytes) : Bytes := if a = [] then b else a

/-- The question that an object stands for. -/
def parseQuestion (stod : Bytes → Option ℚ) (obj : Bytes) : Question :=
  let type := firstText (extractStr obj (str "type")) (str "single_choice")
  let key := firstText (extractStr obj (str "key")) (extractStr obj (str "answer"))
  let keyRaw :=
    firstText (extractRawValue obj (str "key")) (extractRawValue obj (str "answer"))
  { number := extractInt stod obj (str "number") 0
    type := type
    weight := extractDouble stod obj (str "weight") 1
    key := key
    isPartial := jsonBoolField obj (str "partial_scoring") || jsonBoolField obj (str "partial") ||
      type = str "partial"
    keyRaw :=
      if keyRaw = [] ∧ key ≠ [] then chr '"' :: (key ++ [chr '"']) else keyRaw }

/-- One round of `parse_questions`: the next object and what follows it. -/
def objectRound (s : Bytes) : Option (Bytes × Bytes) :=
  (findByte (· = chr '\x7b') s).bind fun u =>
    (objectText 0 false false u).map fun obj => (obj, u.drop obj.length)

def hasNumber (obj : Bytes) : Bool := (findSub (str "\"number\"") obj).isSome

def parseQuestions (stod : Bytes → Option ℚ) (json : Bytes) : List Question :=
  let objects := (scan objectRound (json.length + 1) json).getD []
  (objects.filter hasNumber).map (parseQuestion stod)

/-- `score_submission_json`; the outer `none` if it does not return. -/
def scoreSubmissionJson (stod : Bytes → Option ℚ) (questionsJson : Bytes) (answers : StringMap) :
    Option (Option ℚ) :=
  if questionsJson = [] then some none
  else if (parseQuestions stod questionsJson).isEmpty then some none
  else (scoreSubmission (parseQuestions stod questionsJson) answers).map some

end ExamVan.Middleware

namespace ExamVan.Middleware

open ByteString JsonText
open Queue (scanString objectText needle)

/-- The text behind the first colon behind the first place of a quoted name. -/
def Behind (obj k u : Bytes) : Prop :=
  ∃ between, findSub (needle k) obj = some (needle k ++ (between ++ chr ':' :: u)) ∧
    chr ':' ∉ between

/-- Brackets of both kinds, and braces. -/
def allBrackets : Brackets := ⟨true, true⟩

def braces : Brackets := ⟨false, true⟩

section

variable {obj k u s t rest : Bytes}

theorem bracketed_eq (depth : Int) (inStr esc : Bool) (s : Bytes) :
    bracketed depth inStr esc s = allBrackets.closing depth inStr esc s := by
  induction s generalizing depth inStr esc with
  | nil => rfl
  | cons c s ih =>
      unfold bracketed Brackets.closing
      simp only [ih]
      simp [allBrackets, Brackets.opens, Brackets.closes]

theorem objectText_eq (depth : Int) (inStr esc : Bool) (s : Bytes) :
    objectText depth inStr esc s = (braces.closing depth inStr esc s).map Prod.fst := by
  induction s generalizing depth inStr esc with
  | nil => rfl
  | cons c s ih =>
      unfold objectText Brackets.closing
      simp only [ih, Option.map_map]
      simp only [braces, Brackets.opens, Brackets.closes, Bool.false_and, Bool.false_or, Bool.true_and,
        decide_eq_true_eq]
      split_ifs <;> simp [Function.comp_def]

/-! ### What stands behind a name -/

/-- The text of a value behind a colon. -/
def rawText (u : Bytes) : Bytes :=
  match u.dropWhile isBlank with
  | [] => []
  | c :: v =>
      if c = chr '"' then
        match scanString v with
        | none => []
        | some r => c :: (r.1 ++ [chr '"'])
      else if c = chr '[' ∨ c = chr '{' then
        match bracketed 0 false false (c :: v) with
        | none => []
        | some r => r.1
      else (c :: v).takeWhile fun c => !(c = chr ',' || c = chr '}' || c = chr ']')

theorem extractRawValue_of_behind (h : Behind obj k u) : extractRawValue obj k = rawText u := by
  obtain ⟨between, hfind, hbetween⟩ := h
  unfold extractRawValue
  rw [hfind]
  simp only [List.drop_left, findByte_eq_append hbetween, List.tail_cons, Queue.queueIsBlank_eq]
  rfl

theorem rawText_string {w : List Piece} (h : u.dropWhile isBlank = stringText w ++ t) :
    rawText u = stringText w := by
  have htext : stringText w ++ t = chr '"' :: (raw w ++ chr '"' :: t) := by simp [stringText]
  unfold rawText
  rw [h, htext]
  simp only [if_true, Queue.scanString_raw]
  rfl

/-! ### Objects -/

theorem objectRound_length {item : Bytes} (h : objectRound s = some (item, rest)) :
    rest.length < s.length := by
  unfold objectRound at h
  obtain ⟨u, hu, h⟩ := Option.bind_eq_some_iff.mp h
  obtain ⟨obj, hobj, heq⟩ := Option.map_eq_some_iff.mp h
  cases heq
  have hne : u ≠ [] := by
    rintro rfl
    cases hobj
  have hobjne : item ≠ [] := by
    rintro rfl
    obtain ⟨c, u, rfl⟩ := List.exists_cons_of_ne_nil hne
    unfold objectText at hobj
    split_ifs at hobj <;> simp at hobj
  have hle : u.length ≤ s.length := (suffix_of_findByte hu).length_le
  have hpos := List.length_pos_iff.mpr hobjne
  have hupos := List.length_pos_iff.mpr hne
  rw [List.length_drop]
  omega

/-- A round takes the next object, whatever follows it. -/
theorem objectRound_object {skip : Bytes} (hskip : chr '{' ∉ skip) (lead : Blanks) (members : Members)
    (t : Bytes) : objectRound (skip ++ ((Value.object lead members).render ++ t)) =
      some ((Value.object lead members).render, t) := by
  have hno : ∀ c ∈ skip, decide (c = chr '{') = false := fun c hc =>
    decide_eq_false fun heq => hskip (heq ▸ hc)
  have hfirst : ∀ x : Bytes, findByte (fun c => decide (c = chr '{')) (chr '{' :: x) =
      some (chr '{' :: x) := fun x => findByte_cons_pos (by simp)
  have hclosing := Brackets.closing_object (b := braces) rfl lead members t
  unfold objectRound
  rw [findByte_append hno, Value.render, List.cons_append, hfirst, Option.bind_some, objectText_eq,
    ← List.cons_append, ← Value.render, hclosing]
  simp

theorem objectRound_none (h : chr '{' ∉ s) : objectRound s = none := by
  have hno : ∀ c ∈ s, decide (c = chr '{') = false := fun c hc =>
    decide_eq_false fun heq => h (heq ▸ hc)
  have hnone : findByte (fun c => decide (c = chr '{')) (s ++ []) = none := by
    rw [findByte_append hno]
    rfl
  rw [List.append_nil] at hnone
  rw [objectRound, hnone, Option.bind_none]

/-- Enough rounds take out the objects of a text. -/
theorem scan_objectRound {n : Nat} {objects : List Bytes}
    (h : scan objectRound n s = some objects) :
    scan objectRound (s.length + 1) s = some objects :=
  Scan.eq_some_of_length (fun hround => .inl (objectRound_length hround)) h

end

end ExamVan.Middleware
