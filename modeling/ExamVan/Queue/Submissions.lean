import ExamVan.Lib.Transition
import ExamVan.Lib.Upsert
import ExamVan.Queue.Job

/-!
# The `submissions` table and its four writers

The table has one row for each exam and device. `submit_exam` and the heartbeat flusher insert a
placeholder unless the row is there. The worker persists a job by an `UPDATE` of the row with the
job's exam number and, when that finds no row, by an `INSERT … ON CONFLICT DO UPDATE`.
-/

namespace ExamVan.Queue

open ByteString Sql

/-- One row of `submissions`, less its key and the columns that no statement here writes. -/
@[ext]
structure Row where
  jobId : Option Bytes := none
  studentName : Option Bytes := some []
  examNumber : Option Bytes := some []
  studentClass : Option Bytes := some []
  answersJson : Option Bytes := some (str "{}")
  score : Option Bytes := none
  startTime : Option Bytes := some []
  identityData : Option Bytes := some (str "{}")
  deriving DecidableEq

/-- `UNIQUE (exam_id, mac_address)`. -/
abbrev Key := Int32 × Bytes

abbrev SubmissionTable := Table Key Row

/-- A statement parameter: `exec_params` passes `c_str()`, which ends at the first zero byte. -/
def param (s : Bytes) : Bytes := s.takeWhile (· ≠ 0)

def SubmissionJob.key (j : SubmissionJob) : Key := (j.examId, param j.macAddress)

/-! ### The worker's statements -/

/-- The row that `UPDATE submissions SET …` leaves; the score is the text of `std::to_string`. -/
def updatedRow (j : SubmissionJob) (score : Option Bytes) (row : Row) : Row :=
  { jobId := some (param j.jobId)
    answersJson := some (param (mapToJson j.answers))
    score := nullIf (score.getD []) []
    startTime := coalesce row.startTime (nullIf (param j.startTime) [])
    studentName := some (param j.studentName)
    examNumber := some (param j.examNumber)
    studentClass := some (param j.studentClass)
    identityData := some (param (mapToJson j.identityData)) }

/-- `WHERE … ($11='' OR exam_number=$11)`. -/
def updateFinds (j : SubmissionJob) (row : Row) : Bool :=
  param j.examNumber = [] || eqValue row.examNumber (param j.examNumber)

/-- The row of `INSERT INTO submissions … VALUES …`, which `EXCLUDED` names as well. -/
def insertedRow (j : SubmissionJob) (score : Option Bytes) : Row :=
  { jobId := some (param j.jobId)
    studentName := some (param j.studentName)
    examNumber := some (param j.examNumber)
    studentClass := some (param j.studentClass)
    answersJson := some (param (mapToJson j.answers))
    score := nullIf (score.getD []) []
    startTime := some (param j.startTime)
    identityData := some (param (mapToJson j.identityData)) }

/-- The row that `ON CONFLICT (exam_id, mac_address) DO UPDATE SET …` leaves. -/
def conflictRow (j : SubmissionJob) (score : Option Bytes) (row : Row) : Row :=
  let excluded := insertedRow j score
  { jobId := excluded.jobId
    answersJson := excluded.answersJson
    score := excluded.score
    startTime := coalesce excluded.startTime row.startTime
    studentName := excluded.studentName
    examNumber := excluded.examNumber
    studentClass := excluded.studentClass
    identityData := excluded.identityData }

/-- The `UPDATE`, and whether it returns a row. -/
def updateSubmission (j : SubmissionJob) (score : Option Bytes) (t : SubmissionTable) :
    Bool × SubmissionTable :=
  match t j.key with
  | none => (false, t)
  | some row =>
      if updateFinds j row then (true, t.write j.key (updatedRow j score row)) else (false, t)

def insertSubmission (j : SubmissionJob) (score : Option Bytes) (t : SubmissionTable) :
    SubmissionTable :=
  t.upsert j.key (insertedRow j score) (conflictRow j score)

/-- What the worker's two statements make of a row that is there. -/
def persistedRow (j : SubmissionJob) (score : Option Bytes) (row : Row) : Row :=
  if updateFinds j row then updatedRow j score row else conflictRow j score row

/-- Both statements as the worker runs them: the `INSERT` only if the `UPDATE` returned no row. -/
def persistSubmission (j : SubmissionJob) (score : Option Bytes) (t : SubmissionTable) :
    SubmissionTable :=
  if (updateSubmission j score t).1 then (updateSubmission j score t).2
  else insertSubmission j score t

/-! ### The placeholders -/

/-- The insert of `persist_submission_pending`. -/
def submitPlaceholder (j : SubmissionJob) (t : SubmissionTable) : SubmissionTable :=
  t.insertIfAbsent j.key
    { jobId := some (param j.jobId)
      studentName := some (param j.studentName)
      examNumber := some (param j.examNumber)
      studentClass := some (param j.studentClass)
      answersJson := some (param (mapToJson j.answers))
      startTime := some (param j.startTime)
      identityData := some (param (mapToJson j.identityData)) }

/-- The members of a heartbeat payload that its placeholder reads. -/
structure HeartbeatPayload where
  examId : Int32 := 0
  macAddress : Bytes := []
  studentName : Bytes := []
  examNumber : Bytes := []
  studentClass : Bytes := []
  lastSeen : Bytes := []

/-- The insert of `drain_heartbeat_batch`. -/
def heartbeatPlaceholder (hb : HeartbeatPayload) (now : Bytes) (t : SubmissionTable) :
    SubmissionTable :=
  t.insertIfAbsent (hb.examId, param hb.macAddress)
    { studentName := some (param hb.studentName)
      examNumber := some (param hb.examNumber)
      studentClass := some (param hb.studentClass)
      startTime := some (param (if hb.lastSeen = [] then now else hb.lastSeen))
      identityData := some (str "{}") }

/-! ### What a persisted job leaves in the table -/

theorem persistSubmission_self (j : SubmissionJob) (score : Option Bytes) (t : SubmissionTable) :
    persistSubmission j score t j.key =
      some ((t j.key).elim (insertedRow j score) (persistedRow j score)) := by
  rw [persistSubmission, updateSubmission]
  cases hrow : t j.key with
  | none => simp [insertSubmission, Table.upsert_self, hrow]
  | some row =>
      by_cases hfinds : updateFinds j row = true
      · simp [hfinds, persistedRow]
      · simp [hfinds, persistedRow, insertSubmission, Table.upsert_self, hrow]

theorem persistSubmission_of_ne {j : SubmissionJob} {k : Key} (h : k ≠ j.key)
    (score : Option Bytes) (t : SubmissionTable) : persistSubmission j score t k = t k := by
  rw [persistSubmission, updateSubmission]
  cases hrow : t j.key with
  | none => exact Table.upsert_of_ne t _ _ h
  | some row =>
      by_cases hfinds : updateFinds j row = true
      · simp [hfinds, h]
      · simpa [hfinds, insertSubmission] using Table.upsert_of_ne t _ _ h

/-- Whichever statement wrote it, the row carries the job's answers, score and id. -/
theorem persistedRow_answers (j : SubmissionJob) (score : Option Bytes) (row : Row) :
    (persistedRow j score row).jobId = some (param j.jobId) ∧
      (persistedRow j score row).answersJson = some (param (mapToJson j.answers)) ∧
      (persistedRow j score row).score = nullIf (score.getD []) [] := by
  unfold persistedRow
  split <;> exact ⟨rfl, rfl, rfl⟩

/-! ### The two branches -/

theorem updatedRow_eq_conflictRow_iff_startTime (j : SubmissionJob) (score : Option Bytes)
    (row : Row) :
    updatedRow j score row = conflictRow j score row ↔
      coalesce row.startTime (nullIf (param j.startTime) []) = some (param j.startTime) := by
  constructor
  · exact fun h => congrArg Row.startTime h
  · exact fun h => Row.ext rfl rfl rfl rfl rfl rfl h rfl

/-- The job brings the start time that the row has, or the row has none and the job brings one. -/
def StartTimeAgrees (row : Row) (j : SubmissionJob) : Prop :=
  row.startTime = some (param j.startTime) ∨ (row.startTime = none ∧ param j.startTime ≠ [])

theorem coalesce_startTime_iff (row : Row) (j : SubmissionJob) :
    coalesce row.startTime (nullIf (param j.startTime) []) = some (param j.startTime) ↔
      StartTimeAgrees row j := by
  unfold StartTimeAgrees
  cases hstart : row.startTime with
  | some s => simp
  | none =>
      by_cases hempty : param j.startTime = []
      · simp [hempty]
      · simp [nullIf_of_ne hempty, hempty]

/-- The `UPDATE` never replaces a start time. -/
theorem updatedRow_startTime {row : Row} {s : Bytes} (h : row.startTime = some s)
    (j : SubmissionJob) (score : Option Bytes) :
    (updatedRow j score row).startTime = some s := by
  rw [updatedRow, h, coalesce_some]

theorem persistedRow_startTime {row : Row} {j : SubmissionJob} {s : Bytes}
    (hrow : row.startTime = some s) (hagree : StartTimeAgrees row j) (score : Option Bytes) :
    (persistedRow j score row).startTime = some s := by
  have hupdate := updatedRow_startTime hrow j score
  have hbranches := (updatedRow_eq_conflictRow_iff_startTime j score row).mpr
    ((coalesce_startTime_iff row j).mpr hagree)
  unfold persistedRow
  split
  · exact hupdate
  · exact hbranches ▸ hupdate

/-- The two branches agree on a row, and leave a start time in it alone, exactly when the job
brings the row's own start time, or the first one. -/
theorem branches_agree_iff (j : SubmissionJob) (score : Option Bytes) (row : Row) :
    (updatedRow j score row = conflictRow j score row ∧
      ∀ s, s ≠ [] → row.startTime = some s → (persistedRow j score row).startTime = some s) ↔
      StartTimeAgrees row j := by
  constructor
  · intro h
    exact (coalesce_startTime_iff row j).mp
      ((updatedRow_eq_conflictRow_iff_startTime j score row).mp h.1)
  · intro hagree
    refine ⟨?_, fun s _ hrow => persistedRow_startTime hrow hagree score⟩
    exact (updatedRow_eq_conflictRow_iff_startTime j score row).mpr
      ((coalesce_startTime_iff row j).mpr hagree)

/-- A row that a heartbeat made, and a job with another exam number and no start time. -/
theorem not_branches_agree :
    ¬ ∀ (j : SubmissionJob) (score : Option Bytes) (row : Row),
      updatedRow j score row = conflictRow j score row ∧
        ∀ s, s ≠ [] → row.startTime = some s →
          (persistedRow j score row).startTime = some s := by
  intro h
  have hkept := (h { jobId := str "0f", examId := 7, examNumber := str "13" } none
    { examNumber := some (str "12"), startTime := some (str "08:00") }).2 (str "08:00")
    (by decide) rfl
  revert hkept
  decide +kernel

/-! ### Runs of the writers -/

/-- One writer's statement. -/
inductive Write
  | submit (j : SubmissionJob)
  | heartbeat (hb : HeartbeatPayload) (now : Bytes)
  | persist (j : SubmissionJob) (score : Option Bytes)

def Write.apply : Write → SubmissionTable → SubmissionTable
  | .submit j => submitPlaceholder j
  | .heartbeat hb now => heartbeatPlaceholder hb now
  | .persist j score => persistSubmission j score

/-- The table under its writers, in any order. -/
def writers : System SubmissionTable Write where
  initial := fun _ => none
  step? t w := some (w.apply t)

/-- A job is persisted into no row, or into one whose start time it agrees with. -/
def Write.Agrees (t : SubmissionTable) : Write → Prop
  | .persist j _ => ∀ row ∈ t j.key, StartTimeAgrees row j
  | _ => True

def HasStartTime (k : Key) (s : Bytes) (t : SubmissionTable) : Prop :=
  ∃ row, t k = some row ∧ row.startTime = some s

theorem hasStartTime_apply {t : SubmissionTable} {w : Write} {k : Key} {s : Bytes}
    (h : HasStartTime k s t) (hagrees : w.Agrees t) : HasStartTime k s (w.apply t) := by
  obtain ⟨row, hrow, hstart⟩ := h
  cases w with
  | submit j => exact ⟨row, Table.insertIfAbsent_of_some hrow, hstart⟩
  | heartbeat hb now => exact ⟨row, Table.insertIfAbsent_of_some hrow, hstart⟩
  | persist j score =>
      by_cases hk : k = j.key
      · subst hk
        refine ⟨persistedRow j score row, ?_, ?_⟩
        · change persistSubmission j score t j.key = _
          rw [persistSubmission_self, hrow]
          rfl
        · exact persistedRow_startTime hstart (hagrees row hrow) score
      · refine ⟨row, ?_, hstart⟩
        change persistSubmission j score t k = _
        rw [persistSubmission_of_ne hk, hrow]

/-- Once recorded, a start time survives every run of writers whose jobs agree with it. -/
theorem hasStartTime_of_run {t t' : SubmissionTable} {ws : List Write} {k : Key} {s : Bytes}
    (h : HasStartTime k s t) (hguarded : writers.Guarded (fun t w => w.Agrees t) t ws)
    (hrun : writers.run? t ws = some t') : HasStartTime k s t' := by
  induction ws generalizing t with
  | nil =>
      cases hrun
      exact h
  | cons w rest ih =>
      exact ih (hasStartTime_apply h hguarded.1) (hguarded.2 _ rfl) hrun

end ExamVan.Queue
