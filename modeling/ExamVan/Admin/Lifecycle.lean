import ExamVan.Admin.CreateExam
import ExamVan.Admin.ExamHandlers
import ExamVan.Admin.ExamOps
import ExamVan.Admin.Handlers
import ExamVan.Lib.Protocol

/-!
# The life of an exam

All that changes exams runs side by side on one memory store: the handlers of one exam,
`bulk_toggle_exams`, the expiry job, `create_exam`, and `exam_by_token` with its rotation. What the
database and R2 answer is left open.
-/

/-!
## The expiry job

An exam whose time is over gets a tombstone and is made inactive. The job looks at a copy of all
exams, and changes each of them that is due in a step of its own.
-/

namespace ExamVan.Jobs

open ByteString Models Admin

def defaultActiveDays : Int := 14

/-- The exam's window is over: its `end_time`, or without one a number of days after it was made. -/
def expired (clock : Clock) (now : Int) (e : Exam) : Bool :=
  let endTime := e.endTime.getD []
  if endTime ≠ [] then (clock.parse endTime).any (· < now)
  else if e.createdAt ≠ [] then
    (clock.parse e.createdAt).any fun t =>
      Helpers.wrapTicks (t + defaultActiveDays * 24 * 3600 * second) < now
  else false

def tombstone (now : Bytes) (e : Exam) : Exam :=
  { e with tombstonedAt := some now, status := str "inactive" }

def expireEach (clock : Clock) (now : Int) : List Exam → Prog Op Ans Unit
  | [] => .done ()
  | e :: rest =>
      if e.tombstonedAt.isSome || e.status = str "deleted" || !expired clock now e then
        expireEach clock now rest
      else do
        let _ ← Exams.update e.id (tombstone (clock.format now))
        expireEach clock now rest

/-- `run_expiry_job`; `acquired` is what `try_acquire_job` answers. -/
def runExpiryJob (clock : Clock) (acquired : Bool) (now : Int) : Prog Op Ans Unit := do
  if !acquired then return
  let exams ← Exams.listAll
  expireEach clock now exams

end ExamVan.Jobs

namespace ExamVan.Admin

open ByteString Queue Models Api Store

/-! ### Toggling in bulk -/

/-- The mutator of `bulk_toggle_exams`. -/
def setStatus (status : Bytes) (e : Exam) : Exam :=
  { e with
    status := status
    tombstonedAt := if status = str "active" then none else e.tombstonedAt }

def bulkToggledReply (count : Nat) : Http.Response :=
  ⟨200, str "\x7b\"success\":true,\"ok\":true,\"updated\":" ++ natText count ++
    str ",\"message\":\"Status " ++ natText count ++ str " ujian berhasil diperbarui\"\x7d"⟩

/-- The loop of `bulk_toggle_exams`; `scopeOk` is `exam_bulk_scope_ok`. -/
def toggleEach (scopeOk : Int32 → Exam → Bool) (who : Http.AuditIdentity) (status : Bytes) :
    List Int32 → Nat → Prog Op Ans Nat
  | [], count => .done count
  | id :: rest, count => do
      match ← Exams.getById id with
      | none => toggleEach scopeOk who status rest count
      | some e =>
          if !scopeOk id e then toggleEach scopeOk who status rest count
          else
            match ← Exams.update id (setStatus status) with
            | none => toggleEach scopeOk who status rest count
            | some _ => do
                writeAuditLog (intText id.toInt) who (str "bulk_toggle:" ++ status) []
                toggleEach scopeOk who status rest (count + 1)

def bulkToggleExams (scopeOk : Int32 → Exam → Bool) (req : Http.Request) : HandlerProg :=
  let ids := (parseIntArray (jsonRawValue req.body (str "ids"))).getD []
  let status := jsonStringField req.body (str "status")
  if ids = [] then respond (Http.failure 400 (str "ids must be a non-empty array of numbers"))
  else if status ≠ str "active" ∧ status ≠ str "inactive" then
    respond (Http.failure 400 (str "status must be active or inactive"))
  else do
    let count ← toggleEach scopeOk (Http.auditIdentityFrom req) status ids 0
    return .response (bulkToggledReply count)

/-! ### The store and what is outside of it -/

structure ExamWorld where
  exams : IdempotencyStore := ⟨.empty, fun _ => none⟩
  /-- what the database and R2 answer, one answer after the other -/
  outside : Nat → (o : Op) → Ans o
  asked : Nat := 0

def ExamWorld.store (w : ExamWorld) : MemoryStore := w.exams.exams

def ExamWorld.setStore (w : ExamWorld) (s : MemoryStore) : ExamWorld :=
  { w with exams := { w.exams with exams := s } }

def Op.performOn : (o : Op) → ExamWorld → Ans o × ExamWorld
  | .getById id, w => (w.store.getById id, w)
  | .listAll, w => (w.store.listAll, w)
  | .update id mutate, w => ((w.store.update id mutate).1, w.setStore (w.store.update id mutate).2)
  | .remove id, w => ((w.store.remove id).1, w.setStore (w.store.remove id).2)
  | .claimToken token, w => ((w.store.claimToken token).1, w.setStore (w.store.claimToken token).2)
  | .claimTokenIfAbsent token id, w =>
      ((w.store.claimTokenIfAbsent token id).1, w.setStore (w.store.claimTokenIfAbsent token id).2)
  | .unclaimToken token, w => ((), w.setStore (w.store.unclaimToken token))
  | o, w => (w.outside w.asked o, { w with asked := w.asked + 1 })

/-! ### Who changes exams -/

inductive AdminCall
  | updateExam (env : HandlerEnv) (req : Http.Request)
  | saveExamQuestions (env : HandlerEnv) (req : Http.Request)
  | delegateExam (env : HandlerEnv) (req : Http.Request)
  | deleteExam (env : HandlerEnv) (req : Http.Request)
  | bulkToggleExams (scopeOk : Int32 → Exam → Bool) (req : Http.Request)
  | runExpiryJob (acquired : Bool) (now : Int)

section

variable (clock : Clock) (read : Bytes → Except Http.Response (QuestionsForm × Option (List Int32)))

def AdminCall.program : AdminCall → Prog Op Ans (Option ExamReply)
  | .updateExam env req => do return some (← Admin.updateExam env req)
  | .saveExamQuestions env req => do return some (← Admin.saveExamQuestions read env req)
  | .delegateExam env req => do return some (← Admin.delegateExam env req)
  | .deleteExam env req => do return some (← Admin.deleteExam env req)
  | .bulkToggleExams scopeOk req => do return some (← Admin.bulkToggleExams scopeOk req)
  | .runExpiryJob acquired now => do
      let _ ← Jobs.runExpiryJob clock acquired now
      return none

/-- An `exam_by_token`, and the exam that it has matched. -/
structure Join where
  io : Surroundings
  found : Option Exam := none
  progress : Progress

def Join.start (io : Surroundings) (token : Bytes) : Join :=
  { io, progress := (Request.examByToken token).begin io }

def Join.next? (t : Join) (s : MemoryStore) : Option (Join × MemoryStore) :=
  match t.progress with
  | .done _ => none
  | .next h =>
      let found :=
        match h with
        | .joinLook token => lookup s.exams token
        | _ => t.found
      some ({ t with found, progress := (h.move clock t.io s).1 }, (h.move clock t.io s).2)

inductive ExamCall
  | admin (call : AdminCall)
  | create (env : CreateEnv) (req : Http.Request)
  | join (io : Surroundings) (token : Bytes)

inductive ExamThread
  | admin (t : Job AdminCall Op Ans (Option ExamReply))
  | create (t : Job (CreateEnv × Http.Request) CreateOp CreateAns Store.Answer)
  | join (t : Join)

def ExamCall.start : ExamCall → ExamThread
  | .admin call => .admin (Job.start (AdminCall.program clock read) call)
  | .create env req => .create (Job.start (fun r => createExam r.1 r.2) (env, req))
  | .join io token => .join (.start io token)

def ExamThread.next? : ExamThread → ExamWorld → Option (ExamThread × ExamWorld)
  | .admin t, w => (t.next? Op.performOn w).map fun moved => (.admin moved.1, moved.2)
  | .create t, w =>
      (t.next? CreateOp.perform w.exams).map fun moved =>
        (.create moved.1, { w with exams := moved.2 })
  | .join t, w => (t.next? clock w.store).map fun moved => (.join moved.1, w.setStore moved.2)

/-- Any number of threads on a store without exams. -/
def lifecycle (outside : Nat → (o : Op) → Ans o) :
    System (Threads ExamThread ExamWorld) (Threads.Action ExamCall) :=
  Threads.system (ExamCall.start clock read) (ExamThread.next? clock) { outside }

end

end ExamVan.Admin
