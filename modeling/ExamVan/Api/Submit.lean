import ExamVan.Api.Body
import ExamVan.Db.Pool
import ExamVan.Http.Router
import ExamVan.Queue.Submissions
import ExamVan.Services.ExamToken

/-!
# Submitting answers

`submit_exam` checks the request, inserts a placeholder row, pushes the job to the pending queue and
answers 202. `persist_submission_pending` takes a `with_global_pg` that did not call its function
for a process without a database, and that is where an unreachable database goes unnoticed.
-/

namespace ExamVan.Api

open ByteString Queue Models Db Http

/-! ### Requests and responses -/

/-- The parts of a request that the handler reads. -/
structure Request where
  headers : StringMap := OrderedMap.empty
  body : Bytes := []
  query : Bytes := []
  params : StringMap := OrderedMap.empty

/-- The response of 202. -/
def queuedResponse (jobId congrats : Bytes) : Response :=
  ⟨202, str "\x7b\"success\":true,\"status\":\"queued\",\"job_id\":\"" ++ jsonEscape jobId ++
    str "\",\"congrats_message\":" ++
    (if congrats = [] then str "null" else str "\"" ++ jsonEscape congrats ++ str "\"") ++
    str "\x7d"⟩

/-! ### What a call meets -/

/-- What `enqueue_job_to_redis` meets: a connection, at hand or new, and each of two pushes. -/
structure RedisOutcome where
  connected : Bool := true
  pushed : Bool := true
  reconnected : Bool := true
  pushedAgain : Bool := true

/-- What one call of `submit_exam` meets. -/
structure Surroundings where
  /-- `active_store()->get_by_id` -/
  getById : Int32 → Option Exam
  rateLimitAllowed : Bytes → Int32 → Bytes → Bytes → Nat → Bool := fun _ _ _ _ _ => true
  scheduleEnded : Exam → Bool := fun _ => false
  /-- `device_approved`, asked when the schedule has ended -/
  approvedAfterEnd : Int32 → Bytes → Bool := fun _ _ => false
  /-- `device_approved`, asked when the token does not match -/
  approvedWithoutToken : Int32 → Bytes → Bool := fun _ _ => false
  /-- `generate_job_id()` -/
  jobId : Bytes
  now : Bytes := []
  pool : PoolOutcome := {}
  /-- the placeholder's own `acquire` -/
  acquired : Bool := true
  inserted : Bool := true
  /-- whether the test hook is set -/
  hook : Bool := false
  redis : RedisOutcome := {}

/-- What calls leave behind. `inserts` is the history of the placeholder statements that succeeded. -/
structure World where
  submissions : SubmissionTable
  inserts : List SubmissionJob
  /-- the pending list, from the end that is read -/
  pending : List Bytes
  /-- jobs given to the test hook -/
  hooked : List SubmissionJob
  /-- `g_idem_jobs` -/
  idemJobs : StringMap

/-! ### The checks -/

def fieldOr (m : StringMap) (key default : Bytes) : Bytes := (m.find? key).getD default

/-- A form field in place of an empty value. -/
def orForm (value form key : Bytes) : Bytes :=
  if value = [] then fieldOr (parseForm form) key value else value

def examStarted (e : Exam) : Bool := e.isActive && (e.examStartedAt.getD []) ≠ []

/-- The device address that is rate limited and looked up. -/
def submitMac (req : Request) : Bytes :=
  sanitizeMacLikeGo (orForm (jsonStringField req.body (str "mac_address")) req.body
    (str "mac_address"))

def submitToken (req : Request) : Bytes :=
  orForm (fieldOr req.headers (str "X-Exam-Token") []) req.query (str "token")

/-- The job before its identity is checked. Without a name in the JSON, four fields are taken from
the form. -/
def draftJob (env : Surroundings) (req : Request) (examId : Int32) : SubmissionJob :=
  let job : SubmissionJob :=
    { jobId := env.jobId
      examId := examId
      studentName := jsonStringField req.body (str "student_name")
      examNumber := jsonStringField req.body (str "exam_number")
      studentClass := jsonStringField req.body (str "student_class")
      macAddress := submitMac req
      answers := parseStringMap (jsonRawValue req.body (str "answers"))
      identityData := parseStringMap (jsonRawValue req.body (str "identity_data"))
      enqueuedAt := env.now
      startTime := orForm (jsonStringField req.body (str "start_time")) req.body
        (str "start_time") }
  if job.studentName = [] then
    let form := parseForm req.body
    { job with
      studentName := fieldOr form (str "student_name") job.studentName
      examNumber := fieldOr form (str "exam_number") job.examNumber
      studentClass := fieldOr form (str "student_class") job.studentClass
      macAddress :=
        match form.find? (str "mac_address") with
        | none => job.macAddress
        | some mac => sanitizeMacLikeGo mac }
  else job

/-- The value of a required identity field. -/
def identityValue (job : SubmissionJob) (key : Bytes) : Bytes :=
  if key = str "student_name" then job.studentName
  else if key = str "exam_number" then job.examNumber
  else if key = str "student_class" then job.studentClass
  else fieldOr job.identityData key []

/-- The first required identity field without a value. -/
def missingIdentity (e : Exam) (job : SubmissionJob) : Option Bytes :=
  match e.identityFields.getD [] with
  | [] => none
  | fields => (requiredIdentityKeys fields).find? fun key =>
      ExamToken.trim (identityValue job key) = []

/-- `submit_exam` up to the job: the response that ends the call, or the job and its exam. -/
def checkSubmit (env : Surroundings) (req : Request) : Except Response (SubmissionJob × Exam) :=
  match fieldOr req.params (str "exam_id") [] with
  | [] => .error (failure 400 (str "exam id required"))
  | idText =>
  match stoi idText with
  | none => .error (failure 400 (str "invalid exam id"))
  | some examId =>
  match env.getById examId with
  | none => .error (failure 404 (str "exam not found"))
  | some exam =>
  if !examStarted exam then
    .error ⟨403, str
      "\x7b\"success\":false,\"error\":\"exam not started\",\"message\":\"Ujian belum dimulai\"\x7d"⟩
  else if !env.rateLimitAllowed (str "ratelimit:submit:") examId (submitMac req)
      (fieldOr req.headers (str "X-Forwarded-For") []) 10 then
    .error (failure 429 (str "Terlalu banyak percobaan submit. Silakan coba lagi nanti."))
  else if submitToken req = [] then .error (failure 401 (str "Token tidak disertakan"))
  else if env.scheduleEnded exam && !env.approvedAfterEnd examId (submitMac req) then
    .error (failure 403 (str "Waktu ujian telah berakhir"))
  else if !ExamToken.matchesToken exam (submitToken req) &&
      !env.approvedWithoutToken examId (submitMac req) then
    .error (failure 404 (str "Ujian tidak ditemukan"))
  else
    match missingIdentity exam (draftJob env req examId) with
    | some key => .error (failure 400 (str "Identitas wajib belum lengkap: " ++ jsonEscape key))
    | none => .ok (draftJob env req examId, exam)

/-! ### Persisting and enqueueing -/

/-- What `persist_submission_pending` knows after `with_global_pg`. -/
structure Persisting where
  pgUsed : Bool
  ok : Bool
  world : World

/-- The function that `persist_submission_pending` passes to `with_global_pg`. -/
def insertPending (env : Surroundings) (job : SubmissionJob) (p : Persisting) : Persisting :=
  if env.acquired && env.inserted then
    { pgUsed := true
      ok := true
      world :=
        { p.world with
          submissions := submitPlaceholder job p.world.submissions
          inserts := p.world.inserts ++ [job] } }
  else { p with pgUsed := true }

/-- `persist_submission_pending`. -/
def persistSubmissionPending (env : Surroundings) (job : SubmissionJob) (w : World) :
    Bool × World :=
  let p := (withGlobalPg env.pool (insertPending env job) ⟨false, false, w⟩).2
  if !p.pgUsed then (true, p.world) else (p.ok, p.world)

/-- `enqueue_job_to_redis`: one push, and a second one on a new connection if it fails. -/
def enqueueJobToRedis (o : RedisOutcome) (job : SubmissionJob) (w : World) : Bool × World :=
  let pushed := { w with pending := w.pending ++ [toJson job] }
  if !o.connected then (false, w)
  else if o.pushed then (true, pushed)
  else if !o.reconnected then (false, w)
  else if o.pushedAgain then (true, pushed)
  else (false, w)

/-- The hook if it is set, else Redis. -/
def enqueue (env : Surroundings) (job : SubmissionJob) (w : World) : Bool × World :=
  if env.hook then (true, { w with hooked := w.hooked ++ [job] })
  else enqueueJobToRedis env.redis job w

def idemKey (req : Request) : Bytes := fieldOr req.headers (str "Idempotency-Key") []

def cacheKey (examId : Int32) (key : Bytes) : Bytes := intText examId.toInt ++ chr '|' :: key

/-- The job id stored for the request's `Idempotency-Key`. -/
def storedJobId (req : Request) (examId : Int32) (w : World) : Option Bytes :=
  if idemKey req = [] then none else w.idemJobs.find? (cacheKey examId (idemKey req))

def congrats (e : Exam) : Bytes := (e.congratsMessage.getD []).take 2000

/-- `submit_exam`. -/
def submitExam (env : Surroundings) (req : Request) (w : World) : Response × World :=
  match checkSubmit env req with
  | .error r => (r, w)
  | .ok (job, exam) =>
  match storedJobId req job.examId w with
  | some jobId => (queuedResponse jobId (congrats exam), w)
  | none =>
  let persisted := persistSubmissionPending env job w
  if !persisted.1 then
    (failure 503 (str "Gagal menyimpan jawaban. Silakan coba lagi."), persisted.2)
  else
    let queued := enqueue env job persisted.2
    if !queued.1 then
      (failure 503 (str "Antrean jawaban tidak tersedia. Silakan coba lagi."), queued.2)
    else
      let idemJobs := queued.2.idemJobs
      (queuedResponse job.jobId (congrats exam),
        { queued.2 with
          idemJobs := if idemKey req = [] then idemJobs
            else idemJobs.insert (cacheKey job.examId (idemKey req)) job.jobId })

/-! ### What the parts do -/

section

variable (env : Surroundings) (req : Request) (job : SubmissionJob) (w : World)

def RedisOutcome.pushes (o : RedisOutcome) : Bool :=
  o.connected && (o.pushed || (o.reconnected && o.pushedAgain))

theorem enqueueJobToRedis_eq (o : RedisOutcome) :
    enqueueJobToRedis o job w =
      (o.pushes, if o.pushes then { w with pending := w.pending ++ [toJson job] } else w) := by
  obtain ⟨connected, pushed, reconnected, pushedAgain⟩ := o
  cases connected <;> cases pushed <;> cases reconnected <;> cases pushedAgain <;> rfl

def Surroundings.enqueues : Bool := env.hook || env.redis.pushes

/-- A job that is enqueued is in the pending list or was given to the hook; the table is left alone. -/
theorem enqueue_spec :
    (enqueue env job w).1 = env.enqueues ∧
      (env.enqueues = true → (enqueue env job w).2.pending = w.pending ++ [toJson job] ∨
        (enqueue env job w).2.hooked = w.hooked ++ [job]) ∧
      (enqueue env job w).2.submissions = w.submissions ∧
      (enqueue env job w).2.inserts = w.inserts := by
  unfold enqueue Surroundings.enqueues
  cases env.hook with
  | true => exact ⟨rfl, fun _ => Or.inr rfl, rfl, rfl⟩
  | false =>
      rw [if_neg Bool.false_ne_true, enqueueJobToRedis_eq]
      cases env.redis.pushes with
      | true => exact ⟨rfl, fun _ => Or.inl rfl, rfl, rfl⟩
      | false => exact ⟨rfl, fun h => absurd h Bool.false_ne_true, rfl, rfl⟩

/-- The placeholder's three ways: its insert succeeds, or fails, or `with_global_pg` never calls it. -/
theorem persistSubmissionPending_cases :
    (env.pool.reached = true ∧ persistSubmissionPending env job w = (true,
        { w with
          submissions := submitPlaceholder job w.submissions
          inserts := w.inserts ++ [job] })) ∨
      (env.pool.reached = true ∧ persistSubmissionPending env job w = (false, w)) ∨
      (env.pool.reached = false ∧ persistSubmissionPending env job w = (true, w)) := by
  unfold persistSubmissionPending
  rw [withGlobalPg_eq]
  cases hreached : env.pool.reached with
  | false => exact Or.inr (Or.inr ⟨rfl, rfl⟩)
  | true =>
      cases hinsert : env.acquired && env.inserted with
      | true => exact Or.inl ⟨rfl, by simp [insertPending, hinsert]⟩
      | false => exact Or.inr (Or.inl ⟨rfl, by simp [insertPending, hinsert]⟩)

theorem isSome_submitPlaceholder (t : SubmissionTable) :
    (submitPlaceholder job t job.key).isSome = true := by
  unfold submitPlaceholder Sql.Table.insertIfAbsent
  cases hrow : t job.key with
  | some row => simp [hrow]
  | none => simp

/-- A response of `check_submit` is not 202. -/
theorem status_of_checkSubmit {r : Response} (h : checkSubmit env req = .error r) :
    r.status ≠ 202 := by
  unfold checkSubmit at h
  repeat' split at h
  all_goals cases h <;> simp [Http.failure]

theorem jobId_of_checkSubmit {job : SubmissionJob} {exam : Exam}
    (h : checkSubmit env req = .ok (job, exam)) : job.jobId = env.jobId := by
  have hdraft : ∃ examId, job = draftJob env req examId := by
    unfold checkSubmit at h
    repeat' split at h
    all_goals cases h
    exact ⟨_, rfl⟩
  obtain ⟨examId, rfl⟩ := hdraft
  unfold draftJob
  dsimp only
  split <;> rfl

end

/-! ### Durability -/

section

variable (env : Surroundings) (req : Request) (w : World)

/-- The request passes every check, and its `Idempotency-Key` has no job id stored. -/
def PassesWith (job : SubmissionJob) (exam : Exam) : Prop :=
  checkSubmit env req = .ok (job, exam) ∧ storedJobId req job.examId w = none

/-- The job id of the response was stored by an earlier call. -/
def Replays : Prop :=
  ∃ job exam jobId, checkSubmit env req = .ok (job, exam) ∧
    storedJobId req job.examId w = some jobId

/-- A 202 with a job id of this call means that the job was enqueued and, with a database
configured, that its placeholder was inserted and the device has a row. -/
def Durable : Prop :=
  (submitExam env req w).1.status = 202 → ¬ Replays env req w →
    ∃ job exam, checkSubmit env req = .ok (job, exam) ∧ job.jobId = env.jobId ∧
      ((submitExam env req w).2.pending = w.pending ++ [toJson job] ∨
        (submitExam env req w).2.hooked = w.hooked ++ [job]) ∧
      (env.pool.configured = true →
        (submitExam env req w).2.inserts = w.inserts ++ [job] ∧
        ((submitExam env req w).2.submissions job.key).isSome = true)

/-- The database is configured and out of reach, and nothing else ends the call. -/
def Unnoticed : Prop :=
  env.pool.configured = true ∧ env.pool.acquire = false ∧ env.pool.acquireAgain = false ∧
    env.enqueues = true ∧ ∃ job exam, PassesWith env req w job exam

variable {env req w}

/-- Every 202 comes from a request that passes the checks. -/
theorem checkSubmit_of_status (h : (submitExam env req w).1.status = 202) :
    ∃ job exam, checkSubmit env req = .ok (job, exam) := by
  unfold submitExam at h
  cases hcheck : checkSubmit env req with
  | error r =>
      rw [hcheck] at h
      exact absurd h (status_of_checkSubmit env req hcheck)
  | ok pair => exact ⟨pair.1, pair.2, rfl⟩

theorem submitExam_of_passes {job : SubmissionJob} {exam : Exam}
    (hpass : PassesWith env req w job exam) :
    let persisted := persistSubmissionPending env job w
    let queued := enqueue env job persisted.2
    ((submitExam env req w).1.status = 202 ↔ persisted.1 = true ∧ queued.1 = true) ∧
      (persisted.1 = true → queued.1 = true →
        (submitExam env req w).2.pending = queued.2.pending ∧
        (submitExam env req w).2.hooked = queued.2.hooked ∧
        (submitExam env req w).2.inserts = queued.2.inserts ∧
        (submitExam env req w).2.submissions = queued.2.submissions) := by
  obtain ⟨hcheck, hstored⟩ := hpass
  unfold submitExam
  rw [hcheck]
  simp only [hstored]
  cases hpersisted : (persistSubmissionPending env job w).1 with
  | false => simp [Http.failure]
  | true =>
      cases hqueued : (enqueue env job (persistSubmissionPending env job w).2).1 with
      | false => simp [Http.failure]
      | true => simp [queuedResponse]

theorem status_of_unnoticed (h : Unnoticed env req w) :
    (submitExam env req w).1.status = 202 ∧ (submitExam env req w).2.inserts = w.inserts := by
  obtain ⟨hconfigured, hacquire, hagain, henqueues, job, exam, hpass⟩ := h
  obtain ⟨hstatus, hworld⟩ := submitExam_of_passes hpass
  have hreached : env.pool.reached = false := by simp [PoolOutcome.reached, hacquire, hagain]
  obtain ⟨hreached', -⟩ | ⟨hreached', -⟩ | ⟨-, hpersist⟩ := persistSubmissionPending_cases env job w
  · exact absurd (hreached.symm.trans hreached') Bool.false_ne_true
  · exact absurd (hreached.symm.trans hreached') Bool.false_ne_true
  · rw [hpersist] at hstatus hworld
    obtain ⟨hqueued, -, -, hinserts⟩ := enqueue_spec env job w
    have hok : (enqueue env job w).1 = true := hqueued.trans henqueues
    exact ⟨hstatus.mpr ⟨rfl, hok⟩, (hworld rfl hok).2.2.1.trans hinserts⟩

theorem not_replays_of_passes {job : SubmissionJob} {exam : Exam}
    (hpass : PassesWith env req w job exam) : ¬ Replays env req w := by
  rintro ⟨job', exam', jobId, hcheck, hstored⟩
  obtain ⟨rfl, rfl⟩ := Prod.mk.inj (Except.ok.inj (hpass.1.symm.trans hcheck))
  rw [hpass.2] at hstored
  cases hstored

theorem not_durable_of_unnoticed (h : Unnoticed env req w) : ¬ Durable env req w := by
  intro hdurable
  obtain ⟨hstatus, hinserts⟩ := status_of_unnoticed h
  obtain ⟨hconfigured, -, -, -, job, exam, hpass⟩ := h
  obtain ⟨job', -, -, -, -, hdatabase⟩ := hdurable hstatus (not_replays_of_passes hpass)
  have hinserted := (hdatabase hconfigured).1
  rw [hinserts] at hinserted
  simpa using congrArg List.length hinserted

/-- `submit_exam` is durable exactly when it does not answer 202 with its database out of reach. -/
theorem durable_iff (env : Surroundings) (req : Request) (w : World) :
    Durable env req w ↔ ¬ Unnoticed env req w := by
  constructor
  · exact fun hdurable hbad => not_durable_of_unnoticed hbad hdurable
  · intro hgood hstatus hfresh
    obtain ⟨job, exam, hcheck⟩ := checkSubmit_of_status hstatus
    have hstored : storedJobId req job.examId w = none := by
      cases hstored : storedJobId req job.examId w with
      | none => rfl
      | some jobId => exact absurd ⟨job, exam, jobId, hcheck, hstored⟩ hfresh
    have hpass : PassesWith env req w job exam := ⟨hcheck, hstored⟩
    obtain ⟨hiff, hworld⟩ := submitExam_of_passes hpass
    obtain ⟨hpersisted, hqueued⟩ := hiff.mp hstatus
    obtain ⟨hpending, hhooked, hinserts, hsubmissions⟩ := hworld hpersisted hqueued
    obtain ⟨henqueues, hpushed, hrows, hlog⟩ :=
      enqueue_spec env job (persistSubmissionPending env job w).2
    have henq : env.enqueues = true := henqueues.symm.trans hqueued
    refine ⟨job, exam, hcheck, jobId_of_checkSubmit env req hcheck, ?_⟩
    rw [hpending, hhooked, hinserts, hsubmissions, hrows, hlog]
    obtain ⟨-, hpersist⟩ | ⟨-, hpersist⟩ | ⟨hreached, hpersist⟩ :=
      persistSubmissionPending_cases env job w
    · rw [hpersist] at hpushed ⊢
      exact ⟨hpushed henq, fun _ => ⟨rfl, isSome_submitPlaceholder job w.submissions⟩⟩
    · rw [hpersist] at hpersisted
      cases hpersisted
    · rw [hpersist] at hpushed ⊢
      refine ⟨hpushed henq, fun hconfigured => ?_⟩
      have hacquires : env.pool.acquire = false ∧ env.pool.acquireAgain = false := by
        simpa [PoolOutcome.reached, hconfigured] using hreached
      exact absurd ⟨hconfigured, hacquires.1, hacquires.2, henq, job, exam, hpass⟩ hgood

/-- An exam that is open to its token. -/
def openExam : Exam :=
  { id := 7
    activeToken := str "ABCDEFGH"
    status := str "active"
    examStartedAt := some (str "2024-01-01T00:00:00Z") }

/-- A submission for it, with `DATABASE_URL` set and no connection to be had. -/
def downSurroundings : Surroundings :=
  { getById := fun id => if id = 7 then some openExam else none
    jobId := str "0f"
    pool := { acquire := false, acquireAgain := false } }

def plainRequest : Request :=
  { headers := OrderedMap.empty.insert (str "X-Exam-Token") (str "ABCDEFGH")
    params := OrderedMap.empty.insert (str "exam_id") (str "7")
    body := str "\x7b\"student_name\":\"Ani\",\"mac_address\":\"AA:BB\"\x7d" }

def emptyWorld : World := ⟨fun _ => none, [], [], [], OrderedMap.empty⟩

theorem not_durable : ¬ ∀ env req w, Durable env req w := by
  intro h
  have hunnoticed : Unnoticed downSurroundings plainRequest emptyWorld :=
    ⟨rfl, rfl, rfl, rfl, draftJob downSurroundings plainRequest 7, openExam, by decide +kernel,
      by decide +kernel⟩
  exact not_durable_of_unnoticed hunnoticed (h downSurroundings plainRequest emptyWorld)

end

end ExamVan.Api
