import ExamVan.Public.Pages

/-!
# The answer key while answers are accepted

Two runs of one request differ in the questions of one exam. A join shows the stripped questions. The
result page does not look at the schedule: it shows the stripped questions and the best score where
answers are hidden, and the questions as they are stored where they are not.
-/

namespace ExamVan.Public

open ByteString JsonText Models Http Middleware Utils
open Store (MemoryStore)

/-- The exams of one id ask these questions. -/
def asking (id : Int32) (questions : Bytes) (e : Exam) : Exam :=
  if e.id = id then { e with questionsJson := some questions } else e

def World.asking (w : World) (id : Int32) (questions : Bytes) : World :=
  { w with
    store := { w.store with exams := w.store.exams.map (Public.asking id questions) }
    table := w.table.map (Public.asking id questions) }

/-- `submit_exam` would not refuse an exam with this id for its phase. -/
def World.Accepts (w : World) (id : Int32) : Prop :=
  ∃ e, w.store.getById id = some e ∧ Api.examStarted e = true ∧
    Admin.scheduleEnded w.clock w.io.now e = false

/-- Without a session, two lists that differ in their keys get the same answer while the exam is
open. -/
def HidesKeys (w : World) (html : HasilCtx → Bytes) (id : Int32) (q q₂ : Text)
    (endpoint : Endpoint) (req : Request) : Prop :=
  w.Accepts id → SameButHidden q q₂ → w.isLoggedIn req = false →
    (w.asking id q₂.render).answer req html endpoint =
      (w.asking id q.render).answer req html endpoint

/-! ### The questions decide nothing -/

section

variable {w : World} {req : Request} {id : Int32} {questions : Bytes} {e : Exam}
  {html : HasilCtx → Bytes}

theorem exists_asking (id : Int32) (questions : Bytes) (e : Exam) :
    ∃ json, asking id questions e = { e with questionsJson := json } := by
  unfold asking
  split
  · exact ⟨_, rfl⟩
  · exact ⟨e.questionsJson, rfl⟩

/-- A search that does not look at the questions finds the same exam. -/
theorem find?_asking {p : Exam → Bool} (hp : ∀ e json, p { e with questionsJson := json } = p e)
    (exams : List Exam) :
    (exams.map (asking id questions)).find? p = (exams.find? p).map (asking id questions) := by
  rw [List.find?_map]
  congr 2
  funext e
  obtain ⟨json, hjson⟩ := exists_asking id questions e
  rw [Function.comp_apply, hjson, hp]

theorem getById_asking (m : Int32) :
    (w.asking id questions).store.getById m = (w.store.getById m).map (asking id questions) :=
  find?_asking (fun _ _ => rfl) w.store.exams

@[simp]
theorem asking_clock : (w.asking id questions).clock = w.clock := rfl

@[simp]
theorem asking_io : (w.asking id questions).io = w.io := rfl

theorem joined_asking (e : Exam) :
    (w.asking id questions).joined (asking id questions e) =
      asking id questions (w.joined e) := by
  obtain ⟨json, hjson⟩ := exists_asking id questions e
  have hdue : Admin.rotationDue w.clock w.io.now (asking id questions e) =
      Admin.rotationDue w.clock w.io.now e := by
    rw [hjson]
    rfl
  have hid : (asking id questions e).id = e.id := by rw [hjson]
  have hany : ((w.asking id questions).store.getById e.id).any
        (Admin.rotationStillDue w.clock w.io.now) =
      (w.store.getById e.id).any (Admin.rotationStillDue w.clock w.io.now) := by
    rw [getById_asking]
    cases w.store.getById e.id with
    | none => rfl
    | some found =>
        obtain ⟨json, hfound⟩ := exists_asking id questions found
        rw [Option.map_some, Option.any_some, Option.any_some, hfound]
        rfl
  have hrotate : ∀ active reset, Admin.rotate active reset (asking id questions e) =
      asking id questions (Admin.rotate active reset e) := by
    intro active reset
    have hsameId : (Admin.rotate active reset e).id = e.id := rfl
    rw [asking, asking, hsameId]
    split <;> rfl
  simp only [World.joined, asking_clock, asking_io, hdue, hid, hany]
  split
  · cases w.io.pg with
    | none =>
        dsimp only
        split
        · exact hrotate _ _
        · rfl
    | fresh active reset =>
        dsimp only
        split
        · rfl
        · exact hrotate _ _
    | rotated => exact hrotate _ _
  · rfl

theorem opened_asking : (w.asking id questions).opened req =
    (w.opened req).map (asking id questions) := by
  unfold World.opened
  have hlookup : Admin.lookup (w.asking id questions).store.exams (joinToken req) =
      (Admin.lookup w.store.exams (joinToken req)).map (asking id questions) :=
    find?_asking (fun _ _ => rfl) w.store.exams
  rw [hlookup]
  split
  · rfl
  cases Admin.lookup w.store.exams (joinToken req) with
  | none => rfl
  | some found =>
      simp only [Option.map_some, joined_asking]
      obtain ⟨json, hjson⟩ := exists_asking id questions (w.joined found)
      have hactive : (!(asking id questions (w.joined found)).isActive ||
          !Admin.started (asking id questions (w.joined found))) =
            (!(w.joined found).isActive || !Admin.started (w.joined found)) := by
        rw [hjson]
        rfl
      have hended : Admin.scheduleEnded (w.asking id questions).clock
          (w.asking id questions).io.now (asking id questions (w.joined found)) =
            Admin.scheduleEnded w.clock w.io.now (w.joined found) := by
        rw [hjson]
        rfl
      rw [hactive, hended]
      split
      · rfl
      split <;> rfl

theorem readColumns_asking (hne : questions ≠ []) (row : Exam) :
    readColumns (asking id questions row) = asking id questions (readColumns row) := by
  have hfilter : (some questions).filter (· ≠ []) = some questions := by simp [hne]
  unfold asking readColumns
  by_cases hid : row.id = id
  · simp only [if_pos hid, hfilter]
  · simp only [if_neg hid]

theorem getExamByToken_asking (hne : questions ≠ []) (raw : Bytes) :
    (w.asking id questions).getExamByToken raw =
      (w.getExamByToken raw).map (asking id questions) := by
  unfold World.getExamByToken
  simp only [World.asking, Db.withGlobalPg_eq, Option.or_none]
  split
  · split
    · rw [find?_asking (fun _ _ => rfl), Option.map_map, Option.map_map]
      congr 1
      funext row
      exact readColumns_asking hne row
    · rfl
  · rfl

theorem granted_asking (hne : questions ≠ []) : (w.asking id questions).granted req =
    (w.granted req).map (asking id questions) := by
  unfold World.granted
  rw [getExamByToken_asking hne]
  split
  · rfl
  cases w.getExamByToken (pageToken req) with
  | none => rfl
  | some exam =>
      obtain ⟨json, hjson⟩ := exists_asking id questions exam
      have hpublic : (asking id questions exam).publicResults = exam.publicResults := by rw [hjson]
      have hlogged : (w.asking id questions).isLoggedIn = w.isLoggedIn := rfl
      simp only [Option.map_some, hpublic, hlogged]
      split <;> rfl

theorem hasilContext_asking (hne : questions ≠ []) :
    (w.asking id questions).hasilContext req = w.hasilContext req := by
  simp only [World.hasilContext, getExamByToken_asking hne]
  cases w.getExamByToken (pageToken req) with
  | none => rfl
  | some exam =>
      obtain ⟨json, hjson⟩ := exists_asking id questions exam
      rw [Option.map_some, hjson]
      rfl

theorem examResult_asking :
    (w.asking id questions).answer req html .examResult = w.answer req html .examResult := by
  simp only [World.answer, Api.examResult]
  cases Api.fieldOr (handed req).params (str "exam_id") [] with
  | nil => rfl
  | cons c idText =>
      dsimp only
      cases stoi (c :: idText) with
      | none => rfl
      | some examId =>
          dsimp only
          rw [getById_asking]
          cases w.store.getById examId with
          | none => rfl
          | some exam =>
              obtain ⟨json, hjson⟩ := exists_asking id questions exam
              rw [Option.map_some, hjson]
              rfl

end

/-! ### Where the best score ends -/

theorem append_marked {α : Type*} {a : α} {x x' y y' : List α} (hy : a ∉ y) (hy' : a ∉ y') :
    x ++ a :: y = x' ++ a :: y' ↔ x = x' ∧ y = y' := by
  refine ⟨fun h => ?_, fun ⟨hx, hyy⟩ => by rw [hx, hyy]⟩
  have hends : ∀ {c y y' : List α}, a ∉ y → a :: y = c ++ a :: y' → c = [] ∧ y = y' := by
    rintro (_ | ⟨b, c⟩) y y' hy h
    · exact ⟨rfl, (List.cons.inj h).2⟩
    · have hy_eq : y = c ++ a :: y' := (List.cons.inj h).2
      exact absurd (hy_eq ▸ List.mem_append_right _ List.mem_cons_self) hy
  rcases List.append_eq_append_iff.mp h with ⟨c, hx, hc⟩ | ⟨c, hx, hc⟩
  · obtain ⟨rfl, rfl⟩ := hends hy hc
    exact ⟨by rw [hx, List.append_nil], rfl⟩
  · obtain ⟨rfl, rfl⟩ := hends hy' hc
    exact ⟨by rw [hx, List.append_nil], rfl⟩

theorem colon_notMem_fixedTwo (x : ℚ) : chr ':' ∉ fixedTwo x := by
  have hnat : ∀ n, chr ':' ∉ natText n := fun n hmem =>
    absurd (isDigit_of_mem_natText hmem) (by decide)
  have hsign : chr ':' ∉ if x < 0 then [chr '-'] else [] := by split <;> decide
  have hpoint : chr ':' ≠ chr '.' := by decide
  simp only [fixedTwo, List.mem_append, List.mem_cons, hsign, hnat, hpoint, or_self,
    not_false_eq_true]

theorem colon_notMem_fmtNum (x : ℚ) : chr ':' ∉ fmtNum x := by
  unfold fmtNum
  set s := ((fixedTwo x).take 31).rdropWhile (· = chr '0')
  have hs : chr ':' ∉ s := fun hmem =>
    colon_notMem_fixedTwo x (List.mem_of_mem_take ((List.rdropWhile_prefix _ _).mem hmem))
  have ht : chr ':' ∉ if s.getLast? = some (chr '.') then s.dropLast else s := by
    split
    · exact fun hmem => hs (List.mem_of_mem_dropLast hmem)
    · exact hs
  dsimp only
  generalize (if s.getLast? = some (chr '.') then s.dropLast else s) = t at ht
  split
  · decide
  · exact ht

theorem colon_notMem_maxScoreText (stod : Bytes → Option ℚ) (questions : Option Bytes) :
    chr ':' ∉ maxScoreText stod questions := by
  unfold maxScoreText
  dsimp only
  split
  · exact colon_notMem_fmtNum _
  · decide

/-! ### What the answers show -/

/-- The two lists look the same where they are shown: stripped to those who join, stripped and with
the same best score on the result page, unless that shows the answers. -/
def LooksSame (w : World) (id : Int32) (q q₂ : Text) (req : Request) : Endpoint → Prop
  | .examByToken => ∀ e, w.opened req = .ok e → e.id = id → w.codec req = none →
      stripSensitiveKeys q₂.render = stripSensitiveKeys q.render
  | .cekHasilApi => ∀ e, w.granted req = .ok e → e.id = id → w.codec req = none →
      if e.showAnswers = 0 then
        stripSensitiveKeys q₂.render = stripSensitiveKeys q.render ∧
          maxScoreText w.stod (some q₂.render) = maxScoreText w.stod (some q.render)
      else q₂.render = q.render
  | .hasilPage | .examResult => True

section

variable {w : World} {req : Request} {id : Int32} {e : Exam}

theorem asking_of_ne {questions : Bytes} (h : e.id ≠ id) : asking id questions e = e := if_neg h

theorem describe_asking_iff (h : e.id = id) (q q₂ : Text) :
    describe (asking id q₂.render e) = describe (asking id q.render e) ↔
      stripSensitiveKeys q₂.render = stripSensitiveKeys q.render := by
  have hask : ∀ q : Text, describe (asking id q.render e) =
      ⟨200, describedHead e ++ stripSensitiveKeys q.render ++ str "\x7d\x7d"⟩ := by
    intro q
    rw [asking, if_pos h, ← studentQuestions_render]
    rfl
  rw [hask, hask, Response.mk.injEq, List.append_left_inj, List.append_right_inj]
  exact and_iff_right rfl

theorem resultBody_asking_iff (hlogged : w.isLoggedIn req = false) (h : e.id = id) (q q₂ : Text) :
    w.resultBody req (asking id q₂.render e) = w.resultBody req (asking id q.render e) ↔
      if e.showAnswers = 0 then
        stripSensitiveKeys q₂.render = stripSensitiveKeys q.render ∧
          maxScoreText w.stod (some q₂.render) = maxScoreText w.stod (some q.render)
      else q₂.render = q.render := by
  have hname : str ",\"max_score\":" = str ",\"max_score\"" ++ [chr ':'] := by decide +kernel
  obtain ⟨middle, hmiddle⟩ : ∃ middle, resultMiddle e = middle ++ [chr ':'] :=
    ⟨_, by rw [resultMiddle, hname, ← List.append_assoc]⟩
  have hask : ∀ q : Text, w.resultBody req (asking id q.render e) =
      resultHead e ++ ((if e.showAnswers = 0 then stripSensitiveKeys q.render else q.render) ++
        middle ++ chr ':' :: maxScoreText w.stod (some q.render)) ++ resultTail req := by
    intro q
    rw [← resultQuestions_render, asking, if_pos h, World.resultBody, hlogged]
    simp only [List.append_assoc, List.cons_append]
    rw [show ∀ questions, resultMiddle { e with questionsJson := questions } = resultMiddle e from
      fun _ => rfl, hmiddle, List.append_assoc]
    rfl
  rw [hask, hask, List.append_left_inj, List.append_right_inj,
    append_marked (colon_notMem_maxScoreText _ _) (colon_notMem_maxScoreText _ _),
    List.append_left_inj]
  split
  · rfl
  · exact ⟨And.left, fun heq => ⟨heq, by rw [heq]⟩⟩

theorem codec_asking (questions : Bytes) : (w.asking id questions).codec req = w.codec req := rfl

theorem examByToken_asking_iff (q q₂ : Text) :
    (w.asking id q₂.render).examByToken req = (w.asking id q.render).examByToken req ↔
      ∀ e, w.opened req = .ok e → e.id = id → w.codec req = none →
        stripSensitiveKeys q₂.render = stripSensitiveKeys q.render := by
  unfold World.examByToken
  rw [opened_asking, opened_asking, codec_asking, codec_asking]
  cases w.opened req with
  | error r => exact iff_of_true rfl fun _ he => by cases he
  | ok e =>
      have hstatus : ∀ questions, (asking id questions e).status = e.status := by
        intro questions
        obtain ⟨json, hjson⟩ := exists_asking id questions e
        rw [hjson]
      simp only [Except.map, hstatus, Except.ok.injEq, forall_eq']
      cases w.codec req with
      | some codec => exact iff_of_true rfl fun _ hnone => absurd hnone (Option.some_ne_none codec)
      | none =>
          by_cases hid : e.id = id
          · simpa only [hid, forall_const] using describe_asking_iff hid q q₂
          · exact iff_of_true (by rw [asking_of_ne hid, asking_of_ne hid]) fun h => absurd h hid

theorem cekHasilApi_asking_iff (hlogged : w.isLoggedIn req = false) (q q₂ : Text) :
    (w.asking id q₂.render).cekHasilApi req = (w.asking id q.render).cekHasilApi req ↔
      ∀ e, w.granted req = .ok e → e.id = id → w.codec req = none →
        if e.showAnswers = 0 then
          stripSensitiveKeys q₂.render = stripSensitiveKeys q.render ∧
            maxScoreText w.stod (some q₂.render) = maxScoreText w.stod (some q.render)
        else q₂.render = q.render := by
  have hbody : ∀ questions e, (w.asking id questions).resultBody req e = w.resultBody req e :=
    fun _ _ => rfl
  unfold World.cekHasilApi
  rw [granted_asking (text_ne_nil q), granted_asking (text_ne_nil q₂), codec_asking, codec_asking]
  cases w.codec req with
  | some codec => exact iff_of_true rfl fun _ _ _ hnone => absurd hnone (Option.some_ne_none codec)
  | none =>
      cases w.granted req with
      | error r => exact iff_of_true rfl fun _ he => by cases he
      | ok e =>
          simp only [Except.map, hbody, Except.ok.injEq, forall_eq', forall_const]
          by_cases hid : e.id = id
          · simpa only [hid, forall_const, Response.mk.injEq, true_and] using
              resultBody_asking_iff hlogged hid q q₂
          · exact iff_of_true (by rw [asking_of_ne hid, asking_of_ne hid]) fun h => absurd h hid

/-- Without a session the answers are the same exactly if the lists look the same. -/
theorem answer_asking_iff (hlogged : w.isLoggedIn req = false) (html : HasilCtx → Bytes)
    (q q₂ : Text) (endpoint : Endpoint) :
    (w.asking id q₂.render).answer req html endpoint =
        (w.asking id q.render).answer req html endpoint ↔
      LooksSame w id q q₂ req endpoint := by
  cases endpoint with
  | examByToken => exact examByToken_asking_iff q q₂
  | cekHasilApi => exact cekHasilApi_asking_iff hlogged q q₂
  | hasilPage =>
      refine iff_of_true ?_ trivial
      simp only [World.answer, hasilContext_asking (text_ne_nil _)]
  | examResult => exact iff_of_true (examResult_asking.trans examResult_asking.symm) trivial

end

/-- The key of an open exam is hidden exactly from the requests to which the lists look the same. -/
theorem hidesKeys_iff (w : World) (html : HasilCtx → Bytes) (id : Int32) (q q₂ : Text)
    (endpoint : Endpoint) (req : Request) :
    HidesKeys w html id q q₂ endpoint req ↔
      (w.Accepts id → SameButHidden q q₂ → w.isLoggedIn req = false →
        LooksSame w id q q₂ req endpoint) := by
  refine forall_congr' fun _ => forall_congr' fun _ => forall_congr' fun hlogged => ?_
  exact answer_asking_iff hlogged html q q₂ endpoint

/-! ### A key that is shown -/

def openExam : Exam where
  id := 7
  token := str "AB12CD34"
  activeToken := str "AB12CD34"
  status := str "active"
  examStartedAt := some (str "2024-01-01T00:00:00Z")

/-- The exam is open, with the defaults for its results and answers. -/
def openWorld : World where
  stod := fun _ => none
  hash := fun _ => 0
  clock := ⟨fun _ => none, fun _ => []⟩
  store := { exams := [openExam], nextId := 8, seenTokens := {str "AB12CD34"} }
  table := [openExam]
  poll := { getById := fun _ => none, result := fun _ => [] }

def pageRequest : Request where
  method := str "GET"
  path := str "/api/hasil/AB12CD34"
  params := OrderedMap.empty.insert (str "token") (str "AB12CD34")

theorem not_hidesKeys : ¬ ∀ w html id q q₂ endpoint req,
    HidesKeys w html id q q₂ endpoint req := by
  intro h
  let q := fun key : Bytes => question .empty .empty .empty key
  have hsame : SameButHidden (q (str "2")) (q (str "3")) := ⟨rfl, rfl, rfl⟩
  have haccepts : openWorld.Accepts 7 := ⟨openExam, by decide, by decide, by decide⟩
  have hequal := h openWorld (fun _ => []) 7 (q (str "2")) (q (str "3")) .cekHasilApi pageRequest
    haccepts hsame rfl
  have hlooks := (answer_asking_iff rfl _ _ _ _).mp hequal (readColumns openExam) (by decide +kernel) rfl
    (by decide +kernel)
  exact absurd hlooks (by decide +kernel)

end ExamVan.Public
