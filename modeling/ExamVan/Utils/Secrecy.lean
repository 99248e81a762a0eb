import ExamVan.Lib.JsonReading
import ExamVan.Middleware.Scoring
import ExamVan.Utils.AnswerKeys

/-!
# Students do not see the answer keys

The stripped questions are what `exam_by_token` and the public result API hand to students, while
the scorer reads the questions as they are stored. The stripper finds one spelling of a member, the
scorer all spellings with any blanks around the colon, so a text can be scored and not be stripped.
-/

namespace ExamVan.Utils

open ByteString JsonText Middleware

/-! ### What is asked of a text -/

/-- The stripped text is a JSON text for the same data without the sensitive members. -/
def Redacted (q : Text) : Prop :=
  ∃ q' : Text, q'.render = stripSensitiveKeys q.render ∧ q'.data = q.data.remove isSensitive

/-- Two texts that differ in the values of sensitive members only. -/
def SameButHidden (q q₂ : Text) : Prop :=
  q₂.lead = q.lead ∧ hideValue q₂.v = hideValue q.v ∧ q₂.trail = q.trail

/-- Students are given the same questions. -/
def Indistinguishable (q q₂ : Text) : Prop :=
  studentQuestions (some q₂.render) = studentQuestions (some q.render) ∧
    ∀ (showAnswers : Int32) (logged : Bool), showAnswers = 0 → logged = false →
      resultQuestions (some q₂.render) showAnswers logged =
        resultQuestions (some q.render) showAnswers logged

/-- The first string value of a member with one of some names, in the order of the text. -/
def firstString (names : List Piece → Bool) (q : Text) : Bytes :=
  ((findMember names q.v).map Prod.snd).getD []

/-- The scorer reads the first string member with the name `key`. -/
def Scored (q : Text) : Prop :=
  extractStr q.render (str "key") = firstString (namedAs (str "key")) q

/-- The answer keys of a text reach the scorer and no student. -/
def Secret (among : Text → Prop) (q : Text) : Prop :=
  Redacted q ∧ (∀ q₂, among q₂ → SameButHidden q q₂ → Indistinguishable q q₂) ∧ Scored q

/-- Where the loops leave nothing but blanks of the members they erase. -/
structure Roomy (q : Text) : Prop where
  key : RoomyValue (str "key") q.v
  answer : RoomyValue (str "answer") (stripValue (str "key") q.v)

/-! ### Stripping -/

def redactText (q : Text) : Text := { q with v := redact q.v }

theorem stripSensitiveKeys_render {q : Text} (h : Roomy q) :
    stripSensitiveKeys q.render = (redactText q).render := by
  have hfirst := stripLoop_text lower_key h.key
  have hsecond := stripLoop_text lower_answer (q := stripText (str "key") q) h.answer
  rw [stripSensitiveKeys, List.foldl_cons, List.foldl_cons, List.foldl_nil, hfirst, hsecond]
  rfl

/-- The stripper leaves what it should leave, unless it misses a member. -/
theorem redacted_iff {q : Text} (h : Roomy q) : Redacted q ↔ SpelledValue q.v := by
  rw [Redacted, stripSensitiveKeys_render h]
  constructor
  · rintro ⟨q', hrender, hdata⟩
    refine spelled_of_data q.v ?_
    calc
      (redactText q).data = q'.data := (data_unique hrender).symm
      _ = q.data.remove isSensitive := hdata
  · intro hspelled
    exact ⟨redactText q, rfl, data_redact q.v hspelled⟩

theorem stripSensitiveKeys_hidden {q q₂ : Text} (h : Roomy q) (h₂ : Roomy q₂)
    (hspelled : SpelledValue q.v) (hsame : SameButHidden q q₂) :
    stripSensitiveKeys q₂.render = stripSensitiveKeys q.render := by
  obtain ⟨hlead, hhide, htrail⟩ := hsame
  have hspelled₂ : SpelledValue q₂.v := by
    rwa [← spelled_hide, hhide, spelled_hide]
  have hredact : redact q₂.v = redact q.v := by
    rw [← redact_hide q₂.v hspelled₂, hhide, redact_hide q.v hspelled]
  rw [stripSensitiveKeys_render h, stripSensitiveKeys_render h₂]
  simp only [redactText, Text.render, hlead, hredact, htrail]

theorem text_ne_nil (q : Text) : q.render ≠ [] := by
  simp [Text.render, render_ne_nil q.v]

/-- A round keeps the first byte of a text, unless it is a comma. -/
theorem head?_stripStep {k done rest d r : Bytes} {c : UInt8} (hc : c ≠ chr ',')
    (hhead : (done ++ rest).head? = some c) (h : stripStep k done rest = some (d, r)) :
    (d ++ r).head? = some c := by
  unfold stripStep at h
  cases hfind : findSub (needle k) rest with
  | none => simp [hfind] at h
  | some found =>
      obtain ⟨skip, rfl, after, rfl⟩ := exists_of_findSub hfind
      have htake : (skip ++ (needle k ++ after)).take
          ((skip ++ (needle k ++ after)).length - (needle k ++ after).length) = skip := by
        simp
      simp only [hfind, htake, List.drop_left] at h
      obtain ⟨gap, hgap⟩ : (done ++ skip).rdropWhile isBlank <+: done ++ skip :=
        List.rdropWhile_prefix _ _
      set before := (done ++ skip).rdropWhile isBlank
      rw [← List.append_assoc, ← hgap] at hhead
      rw [← hgap] at h
      split_ifs at h with hmember hbreak hcomma
      · cases h
        simpa only [List.append_assoc] using hhead
      · -- the comma is erased, and something stands before it
        cases h
        obtain ⟨init, hinit⟩ := List.getLast?_eq_some_iff.mp hcomma
        rw [hinit, List.dropLast_concat]
        cases init with
        | nil =>
            rw [hinit] at hhead
            cases hhead
            exact absurd rfl hc
        | cons b init =>
            rw [hinit] at hhead
            simpa using hhead
      · cases h
        cases hbefore : before with
        | nil => simp [hbefore] at hmember
        | cons b init =>
            rw [hbefore] at hhead
            simpa using hhead

theorem head?_stripLoop {k done rest : Bytes} {c : UInt8} (hc : c ≠ chr ',')
    (hhead : (done ++ rest).head? = some c) : (stripLoop k done rest).head? = some c := by
  induction done, rest using stripLoop.induct k with
  | case1 done rest hstep => rwa [stripLoop_of_none hstep]
  | case2 done rest d r hstep ih =>
      rw [stripLoop_of_some hstep]
      exact ih (head?_stripStep hc hhead hstep)

theorem stripSensitiveKeys_ne_nil (q : Text) : stripSensitiveKeys q.render ≠ [] := by
  obtain ⟨c, hhead, hc⟩ : ∃ c, q.render.head? = some c ∧ c ≠ chr ',' := by
    have hcomma : ¬ IsWord (chr ',') ∧ isBlank (chr ',') = false := by decide
    cases hlead : q.lead.text with
    | nil =>
        obtain ⟨c, s, hs, hfirst⟩ := render_head q.v
        refine ⟨c, by simp [Text.render, hlead, hs], ?_⟩
        rintro rfl
        rcases hfirst with hword | hc | hc | hc
        · exact hcomma.1 hword
        all_goals exact absurd hc (by decide)
    | cons c s =>
        refine ⟨c, by simp [Text.render, hlead], ?_⟩
        rintro rfl
        have hblank := q.lead.isBlank (chr ',') (hlead ▸ List.mem_cons_self)
        exact absurd hblank (by rw [hcomma.2]; decide)
  have hstripped : (stripSensitiveKeys q.render).head? = some c := by
    rw [stripSensitiveKeys, List.foldl_cons, List.foldl_cons, List.foldl_nil]
    exact head?_stripLoop hc (head?_stripLoop hc hhead)
  intro hnil
  rw [hnil] at hstripped
  cases hstripped

theorem studentQuestions_render (q : Text) :
    studentQuestions (some q.render) = stripSensitiveKeys q.render := by
  simp only [studentQuestions, Option.getD_some, if_neg (text_ne_nil q),
    if_neg (stripSensitiveKeys_ne_nil q)]

theorem resultQuestions_render (q : Text) (showAnswers : Int32) :
    resultQuestions (some q.render) showAnswers false =
      if showAnswers = 0 then stripSensitiveKeys q.render else q.render := by
  by_cases hshow : showAnswers = 0
  · simp [resultQuestions, hshow, text_ne_nil q, stripSensitiveKeys_ne_nil q]
  · simp [resultQuestions, hshow, text_ne_nil q]

theorem indistinguishable_of_strip_eq {q q₂ : Text}
    (h : stripSensitiveKeys q₂.render = stripSensitiveKeys q.render) : Indistinguishable q q₂ := by
  refine ⟨?_, fun showAnswers logged hshow hlogged => ?_⟩
  · simp only [studentQuestions, Option.getD_some, if_neg (text_ne_nil _), h]
  · have hstrips : ∀ q : Text, showAnswers = 0 ∧ (!logged) = true ∧ q.render ≠ [] :=
      fun q => ⟨hshow, by rw [hlogged]; rfl, text_ne_nil q⟩
    simp only [resultQuestions, Option.getD_some, if_pos (hstrips _), h]

/-! ### Secrecy -/

/-- A string without escapes. -/
def spell (b : Bytes) : List Piece :=
  b.filterMap fun c =>
    if h : 0x20 ≤ c ∧ c ≠ chr '"' ∧ c ≠ chr '\\' then some (.plain c h) else none

def blank : Blanks := ⟨[chr ' '], by decide⟩

/-- A question with a text and a key. -/
def question (pre mid post : Blanks) (key : Bytes) : Text :=
  { v := .array .empty (.cons .empty (.object .empty
      (.cons .empty (spell (str "text")) .empty .empty (.string (spell (str "1+1"))) .empty
        (.cons pre (spell (str "key")) mid .empty (.string (spell key)) post .nil))) .empty .nil) }

end ExamVan.Utils
