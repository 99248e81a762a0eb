import ExamVan.Admin.Handlers
import ExamVan.Api.Approval

/-!
# The gate of a submission

The device address is read before the checks, from the JSON or else from the form, and every check is
made with it. A body without a name in its JSON is read a second time, and an address in its form then
replaces the one that was checked.
-/

namespace ExamVan.Api

open ByteString Queue Models Db Http

/-! ### The checks of the gate -/

/-- What one call of `device_approved` meets. -/
structure ApprovalLookup where
  /-- the test hook, if it is set -/
  hook : Option (Int32 → Bytes → Bool) := none
  pool : PoolOutcome := {}
  connected : Bool := true
  selects : Bool := true
  /-- `SELECT status FROM exam_approvals WHERE exam_id=$1 AND mac_address=$2` -/
  statusOf : Int32 → Bytes → Option Bytes

/-- `device_approved`. -/
def deviceApproved (l : ApprovalLookup) (examId : Int32) (mac : Bytes) : Bool :=
  match l.hook with
  | some hook => hook examId mac
  | none =>
      let select := fun found =>
        if l.connected && l.selects then l.statusOf examId mac else found
      (withGlobalPg l.pool select none).2 = some approvedStatus

/-- The device is approved, for the hook or in the table. -/
def ApprovalLookup.Approves (l : ApprovalLookup) (examId : Int32) (mac : Bytes) : Prop :=
  match l.hook with
  | some hook => hook examId mac = true
  | none => l.statusOf examId mac = some approvedStatus

/-- What the checks of one call meet besides its surroundings. -/
structure Gate where
  clock : Admin.Clock
  now : Int
  afterEnd : ApprovalLookup
  withoutToken : ApprovalLookup

def Gate.around (g : Gate) (env : Surroundings) : Surroundings :=
  { env with
    scheduleEnded := Admin.scheduleEnded g.clock g.now
    approvedAfterEnd := deviceApproved g.afterEnd
    approvedWithoutToken := deviceApproved g.withoutToken }

/-- The request passes the gate for an exam and a device. -/
structure Admits (g : Gate) (env : Surroundings) (req : Request) (examId : Int32) (mac : Bytes)
    (exam : Exam) : Prop where
  found : env.getById examId = some exam
  active : exam.isActive = true
  started : ∃ text, exam.examStartedAt = some text ∧ text ≠ []
  rateLimited : env.rateLimitAllowed (str "ratelimit:submit:") examId mac
    (fieldOr req.headers (str "X-Forwarded-For") []) 10 = true
  inTime : (∀ text end_, exam.endTime = some text → text ≠ [] → g.clock.parse text = some end_ →
    g.now ≤ end_ + 60 * Admin.second) ∨ g.afterEnd.Approves examId mac
  token : ExamToken.matchesToken exam (submitToken req) = true ∨
    g.withoutToken.Approves examId mac

section

variable {l : ApprovalLookup} {g : Gate} {env : Surroundings} {req : Request} {examId : Int32}
  {mac : Bytes} {exam : Exam} {job : SubmissionJob}

theorem approves_of_deviceApproved (h : deviceApproved l examId mac = true) :
    l.Approves examId mac := by
  unfold deviceApproved at h
  unfold ApprovalLookup.Approves
  cases hhook : l.hook with
  | some hook =>
      rw [hhook] at h
      exact h
  | none =>
      rw [hhook] at h
      simp only [withGlobalPg_eq, decide_eq_true_eq] at h
      split at h
      · split at h
        · exact h
        · cases h
      · cases h

theorem started_of_examStarted (h : examStarted exam = true) :
    exam.isActive = true ∧ ∃ text, exam.examStartedAt = some text ∧ text ≠ [] := by
  simp only [examStarted, Bool.and_eq_true, decide_eq_true_eq] at h
  obtain ⟨hactive, hstarted⟩ := h
  refine ⟨hactive, ?_⟩
  cases htext : exam.examStartedAt with
  | none => simp [htext] at hstarted
  | some text => exact ⟨text, rfl, by simpa [htext] using hstarted⟩

/-- Without an end of the schedule, there is no reading of `end_time` that is over. -/
theorem le_of_not_scheduleEnded {clock : Admin.Clock} {now : Int}
    (h : Admin.scheduleEnded clock now exam = false) {text : Bytes} {end_ : Int}
    (htext : exam.endTime = some text) (hne : text ≠ []) (hend : clock.parse text = some end_) :
    now ≤ end_ + 60 * Admin.second := by
  simp only [Admin.scheduleEnded, htext, hend, Option.any_some, decide_eq_false_iff_not, not_and,
    decide_eq_true_eq] at h
  exact Int.not_lt.mp (h hne)

/-- A request gets to its job only past every refusal. -/
theorem checks_of_checkSubmit (h : checkSubmit env req = .ok (job, exam)) :
    ∃ examId, job = draftJob env req examId ∧ env.getById examId = some exam ∧
      examStarted exam = true ∧
      env.rateLimitAllowed (str "ratelimit:submit:") examId (submitMac req)
        (fieldOr req.headers (str "X-Forwarded-For") []) 10 = true ∧
      (env.scheduleEnded exam = true → env.approvedAfterEnd examId (submitMac req) = true) ∧
      (ExamToken.matchesToken exam (submitToken req) = true ∨
        env.approvedWithoutToken examId (submitMac req) = true) := by
  unfold checkSubmit at h
  split at h
  · cases h
  split at h
  · cases h
  next examId _ =>
  split at h
  · cases h
  next exam' hexam =>
  split at h
  · cases h
  next hstarted =>
  split at h
  · cases h
  next hlimit =>
  split at h
  · cases h
  split at h
  · cases h
  next hended =>
  split at h
  · cases h
  next htoken =>
  split at h
  · cases h
  cases h
  refine ⟨examId, rfl, hexam, by simpa using hstarted, by simpa using hlimit, ?_, ?_⟩
  · simpa using hended
  · simpa [or_iff_not_imp_left] using htoken

/-- A request that passes the checks passes the gate with the address of its first reading. -/
theorem admits_of_checkSubmit (h : checkSubmit (g.around env) req = .ok (job, exam)) :
    ∃ examId, job = draftJob env req examId ∧
      Admits g env req examId (submitMac req) exam := by
  obtain ⟨examId, hjob, hexam, hstarted, hlimit, hended, htoken⟩ := checks_of_checkSubmit h
  obtain ⟨hactive, hstarted⟩ := started_of_examStarted hstarted
  refine ⟨examId, hjob, hexam, hactive, hstarted, hlimit, ?_, ?_⟩
  · cases hschedule : Admin.scheduleEnded g.clock g.now exam with
    | false => exact Or.inl fun _ _ => le_of_not_scheduleEnded hschedule
    | true => exact Or.inr (approves_of_deviceApproved (hended hschedule))
  · exact htoken.imp_right approves_of_deviceApproved

end

/-! ### The address of the job -/

/-- The form gives another address than the JSON, and is read again for the name. -/
def Misread (req : Request) : Prop :=
  jsonStringField req.body (str "student_name") = [] ∧
    jsonStringField req.body (str "mac_address") ≠ [] ∧
      ∃ mac, (parseForm req.body).find? (str "mac_address") = some mac ∧
        sanitizeMacLikeGo mac ≠ sanitizeMacLikeGo (jsonStringField req.body (str "mac_address"))

theorem draftJob_examId (env : Surroundings) (req : Request) (examId : Int32) :
    (draftJob env req examId).examId = examId := by
  unfold draftJob
  dsimp only
  split <;> rfl

/-- The job is for the device that was checked exactly if its address is not misread. -/
theorem draftJob_macAddress_iff (env : Surroundings) (req : Request) (examId : Int32) :
    (draftJob env req examId).macAddress = submitMac req ↔ ¬ Misread req := by
  unfold draftJob Misread
  dsimp only
  split
  next hname =>
    cases hform : (parseForm req.body).find? (str "mac_address") with
    | none => simp
    | some mac =>
        by_cases hjson : jsonStringField req.body (str "mac_address") = []
        · simp [submitMac, orForm, fieldOr, hjson, hform]
        · simp [submitMac, orForm, hjson, hname]
  next hname => simp [hname]

/-! ### Jobs that are enqueued -/

/-- The job of the checks has come to the pending list or to the hook. -/
def Enqueues (env : Surroundings) (req : Request) (w : World) (job : SubmissionJob) : Prop :=
  (∃ exam, PassesWith env req w job exam) ∧
    ((submitExam env req w).2.pending = w.pending ++ [toJson job] ∨
      (submitExam env req w).2.hooked = w.hooked ++ [job])

section

variable (env : Surroundings) (req : Request) (w : World) (job : SubmissionJob)

theorem persistSubmissionPending_queues :
    (persistSubmissionPending env job w).2.pending = w.pending ∧
      (persistSubmissionPending env job w).2.hooked = w.hooked := by
  obtain ⟨-, h⟩ | ⟨-, h⟩ | ⟨-, h⟩ := persistSubmissionPending_cases env job w <;> rw [h] <;>
    exact ⟨rfl, rfl⟩

theorem enqueue_queues :
    ((enqueue env job w).2.pending = w.pending ∧ (enqueue env job w).2.hooked = w.hooked) ∨
      (enqueue env job w).2.pending = w.pending ++ [toJson job] ∨
      (enqueue env job w).2.hooked = w.hooked ++ [job] := by
  unfold enqueue
  cases env.hook with
  | true => exact Or.inr (Or.inr rfl)
  | false =>
      rw [if_neg Bool.false_ne_true, enqueueJobToRedis_eq]
      cases env.redis.pushes with
      | true => exact Or.inr (Or.inl rfl)
      | false => exact Or.inl ⟨rfl, rfl⟩

/-- A call enqueues the job of its checks, or nothing. -/
theorem submitExam_queues :
    (∃ job, Enqueues env req w job) ∨
      (submitExam env req w).2.pending = w.pending ∧
        (submitExam env req w).2.hooked = w.hooked := by
  unfold Enqueues PassesWith submitExam
  cases hcheck : checkSubmit env req with
  | error r => exact Or.inr ⟨rfl, rfl⟩
  | ok pair =>
      obtain ⟨job, exam⟩ := pair
      dsimp only
      cases hstored : storedJobId req job.examId w with
      | some jobId => exact Or.inr ⟨rfl, rfl⟩
      | none =>
          have hpersist := persistSubmissionPending_queues env w job
          have hqueues := enqueue_queues env (persistSubmissionPending env job w).2 job
          rw [hpersist.1, hpersist.2] at hqueues
          cases (persistSubmissionPending env job w).1 with
          | false => exact Or.inr hpersist
          | true =>
              cases (enqueue env job (persistSubmissionPending env job w).2).1 <;>
                exact hqueues.symm.imp_left fun hjob => ⟨job, ⟨exam, rfl, hstored⟩, hjob⟩

end

/-- A job that is enqueued is for the device that was rate limited and looked up, and passes the
gate. -/
def Gated (g : Gate) (env : Surroundings) (req : Request) (w : World) : Prop :=
  ∀ job, Enqueues (g.around env) req w job →
    ∃ exam, Admits g env req job.examId (submitMac req) exam ∧ job.macAddress = submitMac req

/-- A submission is gated exactly if it is not enqueued with its address misread. -/
theorem gated_iff (g : Gate) (env : Surroundings) (req : Request) (w : World) :
    Gated g env req w ↔ ¬ (Misread req ∧ ∃ job, Enqueues (g.around env) req w job) := by
  have hdraft : ∀ {job}, Enqueues (g.around env) req w job →
      ∃ exam, job = draftJob env req job.examId ∧
        Admits g env req job.examId (submitMac req) exam := by
    rintro job ⟨⟨exam, hcheck, -⟩, -⟩
    obtain ⟨examId, rfl, hadmits⟩ := admits_of_checkSubmit hcheck
    rw [draftJob_examId]
    exact ⟨exam, rfl, hadmits⟩
  constructor
  · rintro hgated ⟨hmisread, job, henqueues⟩
    obtain ⟨-, hjob, -⟩ := hdraft henqueues
    obtain ⟨-, -, hmac⟩ := hgated job henqueues
    rw [hjob] at hmac
    exact (draftJob_macAddress_iff env req job.examId).mp hmac hmisread
  · intro hread job henqueues
    obtain ⟨exam, hjob, hadmits⟩ := hdraft henqueues
    refine ⟨exam, hadmits, ?_⟩
    rw [hjob]
    exact (draftJob_macAddress_iff env req job.examId).mpr fun h => hread ⟨h, job, henqueues⟩

/-! ### A submission for another device -/

def endedExam : Exam := { openExam with endTime := some (str "2024-01-01T01:00:00Z") }

/-- A day after the end, only the device `AA:BB` is approved. -/
def endedGate : Gate where
  clock :=
    { parse := fun text =>
        if text = str "2024-01-01T01:00:00Z" then some (1704070800 * Admin.second) else none
      format := fun _ => [] }
  now := 1704157200 * Admin.second
  afterEnd := { statusOf := approvalOf }
  withoutToken := { statusOf := approvalOf }
where
  approvalOf (examId : Int32) (mac : Bytes) : Option Bytes :=
    if examId = 7 ∧ mac = str "AA:BB" then some approvedStatus else none

def endedSurroundings : Surroundings :=
  { getById := fun id => if id = 7 then some endedExam else none
    jobId := str "0f" }

/-- A form with the approved address in a JSON and another one in a field. -/
def misreadRequest : Request :=
  { headers := OrderedMap.empty.insert (str "X-Exam-Token") (str "OLDTOKEN")
    params := OrderedMap.empty.insert (str "exam_id") (str "7")
    body := str "a=\x7b\"mac_address\":\"AA:BB\"\x7d&mac_address=CC:DD&student_name=Ani" }

theorem not_gated : ¬ ∀ g env req w, Gated g env req w := by
  intro h
  have henqueues : Enqueues (endedGate.around endedSurroundings) misreadRequest emptyWorld
      (draftJob endedSurroundings misreadRequest 7) :=
    ⟨⟨endedExam, by decide +kernel, by decide +kernel⟩, Or.inl (by decide +kernel)⟩
  obtain ⟨-, -, hmac⟩ := h endedGate endedSurroundings misreadRequest emptyWorld _ henqueues
  exact absurd hmac (by decide +kernel)

end ExamVan.Api
