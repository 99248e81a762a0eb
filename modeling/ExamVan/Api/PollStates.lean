import ExamVan.Api.OwnResult
import ExamVan.Lib.JsonReading
import ExamVan.Queue.Job

/-!
# What a poll reports

A job is done, failed or pending, and two stores know: Redis the result, for a while, and the
database the row. The response that the lookup in the database fills has status 200 before it is
filled. So a poll that asks the database and finds no score is answered with that response, which
has no body, and never with `pending`.
-/

namespace ExamVan.Api

open ByteString Queue Models Db Http JsonText

/-! ### Stored results, successful and failed -/

section

variable {x s t : Bytes}

/-- Where a text is not, a longer one that begins with it is not either. -/
theorem findSub_longer_eq_none (hs : findSub s t = none) : findSub (s ++ x) t = none := by
  induction t with
  | nil =>
      rw [findSub] at hs ⊢
      split at hs
      · cases hs
      · next hne => exact if_neg fun h => hne (List.append_eq_nil_iff.mp h).1
  | cons c t ih =>
      rw [findSub] at hs ⊢
      split at hs
      · cases hs
      · next hnot =>
          rw [if_neg fun h => hnot ((List.prefix_append s x).trans h)]
          exact ih hs

theorem findSub_longer {u : Bytes} (h : findSub s t = some u) :
    findSub (s ++ x) t = findSub (s ++ x) u := by
  induction t with
  | nil =>
      rw [findSub] at h
      split at h
      · cases h
        rfl
      · cases h
  | cons c t ih =>
      rw [findSub] at h
      split at h
      · cases h
        rfl
      · next hnot =>
          rw [findSub, if_neg fun hhead => hnot ((List.prefix_append s x).trans hhead)]
          exact ih h

end

/-- A stored result behind its flag. -/
def JobResult.unflagged (r : JobResult) : Bytes :=
  membersText false r.remarks ++
    chr ',' :: (member (str "score") (scoreText r.score) ++ [chr '\x7d'])

theorem flagged_eq (r : JobResult) :
    r.flagged = field (str "success") ++ (boolText r.success ++ r.unflagged) := by
  simp [JobResult.flagged, JobResult.unflagged, member, field]

theorem quote_notMem_scoreText {r : JobResult} (h : ∀ n ∈ r.score, IsNumeral n) :
    chr '"' ∉ scoreText r.score := by
  cases hscore : r.score with
  | none => decide
  | some n =>
      intro hmem
      rcases (h n hscore).2 _ hmem with hbad | hbad | hbad | hbad | hbad
      all_goals exact absurd hbad (by decide)

/-- Behind the flag there is no second one. -/
theorem findSub_success_unflagged {r : JobResult} (h : ∀ n ∈ r.score, IsNumeral n) :
    findSub (field (str "success")) r.unflagged = none := by
  have hname : PlainName (str "success") := by decide
  have hremarks : ∀ m ∈ r.remarks, PlainName m.1 ∧ m.1 ≠ str "success" := by
    simp only [JobResult.remarks, List.forall_mem_cons, List.not_mem_nil, false_implies,
      implies_true, and_true]
    decide
  have hcomma : chr '"' ∉ [chr ','] := by decide
  have hlast : chr '"' ∉ scoreText r.score ++ [chr '\x7d'] := by
    rw [List.mem_append, not_or]
    exact ⟨quote_notMem_scoreText h, by decide⟩
  calc findSub (field (str "success")) r.unflagged
      = findSub (field (str "success"))
          (chr ',' :: (member (str "score") (scoreText r.score) ++ [chr '\x7d'])) :=
        findSub_field_membersText hname hremarks false _
    _ = findSub (field (str "success")) (member (str "score") (scoreText r.score) ++ [chr '\x7d']) :=
        findSub_field_skip hcomma _
    _ = findSub (field (str "success")) (scoreText r.score ++ [chr '\x7d']) := by
        rw [member, List.append_assoc]
        exact findSub_field_needle hname (by decide) (by decide) _
    _ = findSub (field (str "success")) ((scoreText r.score ++ [chr '\x7d']) ++ []) := by
        rw [List.append_nil]
    _ = none := findSub_field_skip hlast []

theorem findSub_success (r : JobResult) :
    findSub (field (str "success")) r.toJson = some r.flagged := by
  have hname : PlainName (str "success") := by decide
  have hmembers : ∀ m ∈ r.members, PlainName m.1 ∧ m.1 ≠ str "success" := by
    simp only [JobResult.members, List.forall_mem_cons, List.not_mem_nil, false_implies,
      implies_true, and_true]
    decide
  have hopen : chr '"' ∉ [chr '\x7b'] := by decide
  have hcomma : chr '"' ∉ [chr ','] := by decide
  calc findSub (field (str "success")) r.toJson
      = findSub (field (str "success")) (membersText true r.members ++ chr ',' :: r.flagged) :=
        findSub_field_skip hopen _
    _ = findSub (field (str "success")) (chr ',' :: r.flagged) :=
        findSub_field_membersText hname hmembers true _
    _ = findSub (field (str "success")) r.flagged := findSub_field_skip hcomma _
    _ = some r.flagged := findSub_of_head (flagged_eq r ▸ List.prefix_append _ _)

/-- A failed result is not taken for a successful one, whatever its strings hold. -/
theorem findSub_success_failed {r : JobResult} (h : ∀ n ∈ r.score, IsNumeral n)
    (hfailed : r.success = false) {x : Bytes} (hx : ¬ x <+: str "false" ++ r.unflagged) :
    findSub (field (str "success") ++ x) r.toJson = none := by
  have hname : PlainName (str "success") := by decide
  have hflagged : r.flagged = chr '"' :: (str "success" ++
      chr '"' :: chr ':' :: (str "false" ++ r.unflagged)) := by
    rw [flagged_eq, hfailed]
    rfl
  have hnot : ¬ field (str "success") ++ x <+: r.flagged := by
    rw [flagged_eq, hfailed, List.prefix_append_right_inj]
    exact hx
  have hquote : chr '"' ∉ str "success" := by decide
  have hword : chr '"' ∉ chr ':' :: str "false" := by decide
  have hrest : findSub (field (str "success")) (str "success" ++
      chr '"' :: chr ':' :: (str "false" ++ r.unflagged)) = none := by
    rw [findSub_field_skip hquote, findSub_field_closing hname (by decide), ← List.cons_append,
      findSub_field_skip hword, findSub_success_unflagged h]
  rw [findSub_longer (findSub_success r)]
  rw [hflagged] at hnot ⊢
  rw [findSub, if_neg hnot, findSub_longer_eq_none hrest]

theorem storedSuccess_eq {r : JobResult} (h : ∀ n ∈ r.score, IsNumeral n) :
    storedSuccess r.toJson = r.success := by
  cases hsuccess : r.success with
  | true => exact storedSuccess_toJson hsuccess
  | false =>
      have htight : str "\"success\":true" = field (str "success") ++ str "true" := by decide
      have hloose : str "\"success\": true" = field (str "success") ++ str " true" := by decide
      have hnot : ∀ (c : UInt8) (x : Bytes), c ≠ chr 'f' → ¬ c :: x <+: str "false" ++ r.unflagged :=
        fun c x hc hhead => hc (List.cons_prefix_cons.mp hhead).1
      have htrue : findSub (field (str "success") ++ str "true") r.toJson = none :=
        findSub_success_failed h hsuccess (hnot (chr 't') (str "rue") (by decide))
      have hspace : findSub (field (str "success") ++ str " true") r.toJson = none :=
        findSub_success_failed h hsuccess (hnot (chr ' ') (str "true") (by decide))
      rw [storedSuccess, htight, hloose, htrue, hspace]
      rfl

/-! ### Answers in JSON -/

/-- The object of a poll's answer. -/
def answerMembers (success : Bool) (status : Bytes) (score : Literal) (message : Bytes) : Members :=
  let next name v rest := Members.cons .empty (escapedPieces name) .empty .empty v .empty rest
  next (str "success") (.literal (if success then .true else .false))
    (next (str "status") (.string (escapedPieces status))
      (next (str "score") (.literal score)
        (next (str "message") (.string (escapedPieces message)) .nil)))

def answerText (success : Bool) (status : Bytes) (score : Literal) (message : Bytes) : Text where
  v := .object .empty (answerMembers success status score message)

theorem render_answerText (success : Bool) (status : Bytes) (score : Literal) (message : Bytes) :
    (answerText success status score message).render =
      str "\x7b\"success\":" ++ boolText success ++ str ",\"status\":" ++ quoted status ++
        str ",\"score\":" ++ score.text ++ str ",\"message\":" ++ quoted message ++ str "\x7d" := by
  have hflag : (if success then Literal.true else Literal.false).text = boolText success := by
    cases success <;> rfl
  simp only [answerText, answerMembers, Text.render, Value.render, Members.render,
    stringText_escapedPieces, hflag, Blanks.text_empty, comma, if_true, Bool.false_eq_true, if_false,
    List.nil_append, List.append_nil, List.append_assoc, List.cons_append]
  rfl

theorem data_answerText (success : Bool) (status : Bytes) (score : Literal) (message : Bytes) :
    (answerText success status score message).data =
      .object [(str "success", .literal (boolText success)), (str "status", .string status),
        (str "score", .literal score.text), (str "message", .string message)] := by
  have hflag : (if success then Literal.true else Literal.false).text = boolText success := by
    cases success <;> rfl
  simp only [answerText, answerMembers, Text.data, Value.data, Members.data, decode_escapedPieces,
    hflag]

/-- The body is a JSON object with this status and this score. -/
def Reports (r : Response) (status score : Bytes) : Prop :=
  r.status = 200 ∧ ∃ t : Text, t.render = r.body ∧ ∃ members, t.data = .object members ∧
    (str "status", .string status) ∈ members ∧ (str "score", .literal score) ∈ members

theorem reports_answerText_iff {success : Bool} {status message s n : Bytes} {score : Literal} :
    Reports ⟨200, (answerText success status score message).render⟩ s n ↔
      s = status ∧ n = score.text := by
  have hdata := data_answerText success status score message
  constructor
  · rintro ⟨-, t, hrender, members, hmembers, hstatus, hscore⟩
    rw [data_unique hrender, hdata] at hmembers
    cases hmembers
    have hs1 : str "status" ≠ str "success" := by decide
    have hs2 : str "status" ≠ str "score" := by decide
    have hs3 : str "status" ≠ str "message" := by decide
    have hn1 : str "score" ≠ str "success" := by decide
    have hn2 : str "score" ≠ str "message" := by decide
    simp only [List.mem_cons, Prod.mk.injEq, hs1, hs2, hs3, hn1, hn2, Ne.symm hs2, false_and,
      true_and, false_or, or_false, List.not_mem_nil, Data.string.injEq, Data.literal.injEq]
      at hstatus hscore
    exact ⟨hstatus, hscore⟩
  · rintro ⟨rfl, rfl⟩
    exact ⟨rfl, _, rfl, _, hdata, by simp, by simp⟩

/-- An answer without a body reports nothing. -/
theorem not_reports_nil (s n : Bytes) : ¬ Reports ⟨200, []⟩ s n := by
  rintro ⟨-, t, hrender, -⟩
  exact render_ne_nil t.v (List.append_eq_nil_iff.mp (List.append_eq_nil_iff.mp hrender).1).2

theorem doneResponse_eq (score : Literal) : doneResponse score.text =
    ⟨200, (answerText true (str "done") score (str "Jawaban berhasil disimpan")).render⟩ := by
  rw [render_answerText]
  simp only [doneResponse, List.append_assoc]
  rfl

theorem failedResponse_eq : failedResponse =
    ⟨200, (answerText false (str "failed") .null (str "Gagal memproses jawaban")).render⟩ := by
  rw [render_answerText]
  rfl

theorem pendingResponse_eq : pendingResponse =
    ⟨200, (answerText true (str "pending") .null (str "Jawaban masih diproses")).render⟩ := by
  rw [render_answerText]
  rfl

/-! ### The stores -/

/-- A score as both stores print it. -/
structure Score where
  number : Number
  plain : IsNumeral number.text

/-- What the worker stores: its score, if it has one, is a number. -/
structure StoredResult where
  result : JobResult
  score : Option Score
  printed : result.score = score.map fun s => s.number.text

/-- What a poll meets, and what the stores hold. -/
structure PollWorld where
  getById : Int32 → Option Exam
  deviceApproved : Int32 → Bytes → Bool := fun _ _ => false
  rateLimitAllowed : Bytes → Int32 → Bytes → Bytes → Nat → Bool := fun _ _ _ _ _ => true
  /-- the result in Redis for a job id -/
  stored : Bytes → Option StoredResult
  pool : PoolOutcome := {}
  acquired : Bool := true
  /-- the query gets an answer -/
  answered : Bool := true
  /-- the row of a job, exam and device, unscored or scored -/
  row : Bytes → Int32 → Bytes → Option (Option Score)

/-- What the stores make known of a job without a successful result: its status and its score. -/
def knownOf (row : Option Score) (status : Bytes) : Bytes × Bytes :=
  match row with
  | some score => (str "done", score.number.text)
  | none => (status, str "null")

namespace PollWorld

variable (w : PollWorld)

/-- A column that is null is read as an empty text. -/
def env : PollEnv where
  getById := w.getById
  deviceApproved := w.deviceApproved
  rateLimitAllowed := w.rateLimitAllowed
  result jobId := ((w.stored jobId).map fun r => r.result.toJson).getD []
  pool := w.pool
  acquired := w.acquired
  scoreOf jobId examId mac :=
    if w.answered then
      (w.row jobId examId mac).map fun score => (score.map fun s => s.number.text).getD []
    else none

/-- The score in the row, if the database can be asked for it. -/
def visible (jobId : Bytes) (examId : Int32) (mac : Bytes) : Option Score :=
  if w.pool.reached && w.acquired && w.answered then (w.row jobId examId mac).join else none

/-- The status and the score that the stores make known. -/
def known (jobId : Bytes) (examId : Int32) (mac : Bytes) : Bytes × Bytes :=
  match w.stored jobId with
  | some r =>
      if r.result.success then (str "done", scoreText r.result.score)
      else knownOf (w.visible jobId examId mac) (str "failed")
  | none => knownOf (w.visible jobId examId mac) (str "pending")

end PollWorld

/-- The poll passes the gate and the limit, and a stored result belongs to who asks. -/
structure Passes (hash : Bytes → UInt64) (env : PollEnv) (req : Request) (examId : Int32) : Prop where
  exam_id : ∃ c idText, fieldOr req.params (str "exam_id") [] = c :: idText ∧
    stoi (c :: idText) = some examId
  access : ∃ exam, env.getById examId = some exam ∧
    ((pollToken req ≠ [] && ExamToken.matchesToken exam (pollToken req)) ||
      (pollMac req ≠ str "unknown" && env.deviceApproved examId (pollMac req))) = true
  rate : env.rateLimitAllowed (str "ratelimit:result:") examId (pollMac req)
    (fieldOr req.headers (str "X-Forwarded-For") []) 60 = true
  device : env.result (queryParam req (str "job_id")) ≠ [] →
    otherDevice (env.result (queryParam req (str "job_id"))) (queryParam req (str "job_id"))
      (pollMac req) examId = false
  identity : env.result (queryParam req (str "job_id")) ≠ [] →
    otherIdentity hash (env.result (queryParam req (str "job_id"))) (pollIdentity req) = false

theorem examResult_of_passes {hash : Bytes → UInt64} {env : PollEnv} {req : Request} {examId : Int32}
    (h : Passes hash env req examId) : examResult hash env req = pollResult hash env req examId := by
  obtain ⟨c, idText, hparam, hid⟩ := h.exam_id
  obtain ⟨exam, hexam, haccess⟩ := h.access
  unfold examResult
  simp only [hparam, hid, hexam, h.rate, Bool.not_true, Bool.false_eq_true, if_false]
  rw [if_neg]
  rw [← Bool.not_or, haccess]
  decide

/-! ### What is answered -/

section

variable {hash : Bytes → UInt64} {w : PollWorld} {req : Request} {examId : Int32}

theorem pollMac_ne_nil (req : Request) : pollMac req ≠ [] := by
  unfold pollMac sanitizeMacLikeGo
  dsimp only
  split
  · decide
  · next hne => exact hne

/-- A poll for a job with a stored result. -/
theorem pollResult_stored {r : StoredResult} (h : Passes hash w.env req examId)
    (hjob : queryParam req (str "job_id") ≠ [])
    (hstored : w.stored (queryParam req (str "job_id")) = some r) :
    pollResult hash w.env req examId =
      if r.result.success then doneResponse (scoreText r.result.score) else failedResponse := by
  have hraw : w.env.result (queryParam req (str "job_id")) = r.result.toJson := by
    simp [PollWorld.env, hstored]
  have hne : r.result.toJson ≠ [] := List.cons_ne_nil _ _
  have hnumeral : ∀ n ∈ r.result.score, IsNumeral n := by
    rw [r.printed]
    intro n hn
    obtain ⟨score, -, rfl⟩ := Option.map_eq_some_iff.mp hn
    exact score.plain
  have hdevice := h.device
  have hidentity := h.identity
  rw [hraw] at hdevice hidentity
  unfold pollResult
  simp only [hjob, if_false, hraw, hne]
  unfold readResult
  simp only [hdevice hne, hidentity hne, Bool.false_eq_true, if_false, storedSuccess_eq hnumeral,
    storedScore_toJson hnumeral]

/-- A poll that asks the database. -/
theorem pollResult_row (hash : Bytes → UInt64) (hjob : queryParam req (str "job_id") ≠ [])
    (hstored : w.stored (queryParam req (str "job_id")) = none)
    (hmac : pollMac req ≠ str "unknown") :
    pollResult hash w.env req examId =
      match w.visible (queryParam req (str "job_id")) examId (pollMac req) with
      | some score => doneResponse score.number.text
      | none => ⟨200, []⟩ := by
  have hraw : w.env.result (queryParam req (str "job_id")) = [] := by
    simp [PollWorld.env, hstored]
  have hasks : queryParam req (str "job_id") ≠ [] ∧ pollMac req ≠ str "unknown" ∧ pollMac req ≠ [] :=
    ⟨hjob, hmac, pollMac_ne_nil req⟩
  have hlookup : lookUpScore w.env (queryParam req (str "job_id")) (pollMac req) examId ⟨200, []⟩ =
      if w.acquired && w.answered then
        match (w.row (queryParam req (str "job_id")) examId (pollMac req)).join with
        | some score => doneResponse score.number.text
        | none => ⟨200, []⟩
      else ⟨200, []⟩ := by
    unfold lookUpScore PollWorld.env
    dsimp only
    cases w.acquired
    · rfl
    · cases w.answered
      · rfl
      · cases w.row (queryParam req (str "job_id")) examId (pollMac req) with
        | none => rfl
        | some score =>
            cases score with
            | none => rfl
            | some score => exact if_neg score.plain.1
  have hfound : (withGlobalPg w.pool (lookUpScore w.env (queryParam req (str "job_id"))
      (pollMac req) examId) ⟨200, []⟩).2 =
        match w.visible (queryParam req (str "job_id")) examId (pollMac req) with
        | some score => doneResponse score.number.text
        | none => ⟨200, []⟩ := by
    rw [withGlobalPg_eq, hlookup, PollWorld.visible, Bool.and_assoc]
    cases w.pool.reached
    · rfl
    · cases w.acquired && w.answered <;> rfl
  have hstatus : ∀ found : Option Score, (match found with
      | some score => doneResponse score.number.text
      | none => ⟨200, []⟩).status ≠ 0 := by
    intro found
    cases found <;> exact show 200 ≠ 0 by decide
  unfold pollResult
  simp only [hraw, ite_self, if_true]
  unfold readDatabase
  rw [if_pos hasks, show w.env.pool = w.pool from rfl, hfound]
  exact if_pos (hstatus _)

/-- A poll that asks neither store. -/
theorem pollResult_pending (hash : Bytes → UInt64)
    (h : queryParam req (str "job_id") = [] ∨
      w.stored (queryParam req (str "job_id")) = none ∧ pollMac req = str "unknown") :
    pollResult hash w.env req examId = pendingResponse := by
  have hraw : (if queryParam req (str "job_id") = [] then []
      else w.env.result (queryParam req (str "job_id"))) = [] := by
    rcases h with hjob | ⟨hstored, -⟩
    · exact if_pos hjob
    · simp [PollWorld.env, hstored]
  have hasks : ¬ (queryParam req (str "job_id") ≠ [] ∧ pollMac req ≠ str "unknown" ∧
      pollMac req ≠ []) := by
    rintro ⟨hjob, hmac, -⟩
    rcases h with hnil | ⟨-, hunknown⟩
    · exact hjob hnil
    · exact hmac hunknown
  unfold pollResult
  dsimp only
  rw [hraw, if_pos rfl, readDatabase, if_neg hasks]

theorem reports_doneResponse_iff (score : Literal) {s n : Bytes} :
    Reports (doneResponse score.text) s n ↔ s = str "done" ∧ n = score.text := by
  rw [doneResponse_eq]
  exact reports_answerText_iff

theorem reports_failedResponse_iff {s n : Bytes} :
    Reports failedResponse s n ↔ s = str "failed" ∧ n = str "null" := by
  rw [failedResponse_eq]
  exact reports_answerText_iff

theorem reports_pendingResponse_iff {s n : Bytes} :
    Reports pendingResponse s n ↔ s = str "pending" ∧ n = str "null" := by
  rw [pendingResponse_eq]
  exact reports_answerText_iff

end

/-- The answer tells what the stores make known. -/
def TellsState (hash : Bytes → UInt64) (w : PollWorld) (req : Request) (examId : Int32) : Prop :=
  Reports (examResult hash w.env req)
    (w.known (queryParam req (str "job_id")) examId (pollMac req)).1
    (w.known (queryParam req (str "job_id")) examId (pollMac req)).2

/-- A job is named and Redis has its result, which no score in the database contradicts. Or Redis has
none, and a score that the database can give is missing exactly where it is not asked. -/
def Settled (w : PollWorld) (req : Request) (examId : Int32) : Prop :=
  match w.stored (queryParam req (str "job_id")) with
  | some r => queryParam req (str "job_id") ≠ [] ∧ (r.result.success = true ∨
      w.visible (queryParam req (str "job_id")) examId (pollMac req) = none)
  | none => (queryParam req (str "job_id") = [] ∨ pollMac req = str "unknown") ↔
      w.visible (queryParam req (str "job_id")) examId (pollMac req) = none

theorem exists_literal_scoreText (r : StoredResult) :
    ∃ l : Literal, scoreText r.result.score = l.text := by
  rw [r.printed]
  cases r.score with
  | none => exact ⟨.null, rfl⟩
  | some score => exact ⟨.number score.number, rfl⟩

theorem knownOf_eq_iff {row : Option Score} {status status' : Bytes}
    (h : str "done" ≠ status') :
    (knownOf row status).1 = status' ∧ (knownOf row status).2 = str "null" ↔
      row = none ∧ status = status' := by
  cases row with
  | none => simp [knownOf]
  | some score => simp [knownOf, h]

/-- A poll tells the state of its job exactly if Redis has the result or the database a score, or it
names too little to ask for one. -/
theorem tellsState_iff (hash : Bytes → UInt64) (w : PollWorld) (req : Request) (examId : Int32)
    (h : Passes hash w.env req examId) : TellsState hash w req examId ↔ Settled w req examId := by
  have hdone : str "done" ≠ str "pending" := by decide
  unfold TellsState Settled PollWorld.known
  rw [examResult_of_passes h]
  cases hstored : w.stored (queryParam req (str "job_id")) with
  | some r =>
      dsimp only
      by_cases hjob : queryParam req (str "job_id") = []
      · refine iff_of_false (fun hreports => ?_) fun hsettled => hsettled.1 hjob
        rw [pollResult_pending hash (.inl hjob), reports_pendingResponse_iff] at hreports
        split at hreports
        · exact hdone hreports.1
        · have hfailed : str "failed" = str "pending" := ((knownOf_eq_iff hdone).mp hreports).2
          exact absurd hfailed (by decide)
      · obtain ⟨l, hl⟩ := exists_literal_scoreText r
        rw [pollResult_stored h hjob hstored, and_iff_right hjob]
        cases r.result.success with
        | true =>
            refine iff_of_true ?_ (.inl rfl)
            rw [if_pos rfl, if_pos rfl, hl]
            exact (reports_doneResponse_iff l).mpr ⟨rfl, rfl⟩
        | false =>
            simp only [Bool.false_eq_true, if_false, false_or]
            rw [reports_failedResponse_iff, knownOf_eq_iff (by decide), and_iff_left rfl]
  | none =>
      dsimp only
      by_cases hasked : queryParam req (str "job_id") = [] ∨ pollMac req = str "unknown"
      · have hpending : pollResult hash w.env req examId = pendingResponse :=
          pollResult_pending hash (hasked.imp_right fun hmac => ⟨hstored, hmac⟩)
        rw [hpending, iff_true_left hasked, reports_pendingResponse_iff, knownOf_eq_iff hdone,
          and_iff_left rfl]
      · obtain ⟨hjob, hmac⟩ := not_or.mp hasked
        rw [pollResult_row hash hjob hstored hmac, iff_false_left hasked]
        cases w.visible (queryParam req (str "job_id")) examId (pollMac req) with
        | none => exact iff_of_false (not_reports_nil _ _) (not_not.mpr rfl)
        | some score =>
            refine iff_of_true ?_ (Option.some_ne_none score)
            exact (reports_doneResponse_iff (.number score.number)).mpr ⟨rfl, rfl⟩

/-- The worker has not come to the job yet. -/
def waitingWorld : PollWorld where
  getById := downSurroundings.getById
  stored _ := none
  row _ _ _ := none

theorem passes_waitingWorld : Passes foldHash waitingWorld.env (resultRequest []) 7 where
  exam_id := ⟨chr '7', [], by decide, by decide⟩
  access := ⟨openExam, rfl, by decide⟩
  rate := rfl
  device h := absurd rfl h
  identity h := absurd rfl h

theorem tellsState_iff_waiting : TellsState foldHash waitingWorld (resultRequest []) 7 ↔
    Settled waitingWorld (resultRequest []) 7 :=
  tellsState_iff foldHash waitingWorld (resultRequest []) 7 passes_waitingWorld

/-- The student who polls while the job waits gets an empty answer. -/
theorem not_tellsState : Passes foldHash waitingWorld.env (resultRequest []) 7 ∧
    waitingWorld.known (queryParam (resultRequest []) (str "job_id")) 7
      (pollMac (resultRequest [])) = (str "pending", str "null") ∧
    ¬ TellsState foldHash waitingWorld (resultRequest []) 7 := by
  have hjob : queryParam (resultRequest []) (str "job_id") ≠ [] := by decide
  have hmac : pollMac (resultRequest []) ≠ str "unknown" := by decide
  refine ⟨passes_waitingWorld, rfl, fun h => ?_⟩
  have hanswer : pollResult foldHash waitingWorld.env (resultRequest []) 7 = ⟨200, []⟩ :=
    pollResult_row foldHash hjob rfl hmac
  unfold TellsState at h
  rw [examResult_of_passes passes_waitingWorld, hanswer] at h
  exact not_reports_nil _ _ h

end ExamVan.Api
