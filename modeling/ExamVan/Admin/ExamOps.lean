import ExamVan.Http.Router
import ExamVan.Lib.Decimal
import ExamVan.Lib.Prog
import ExamVan.Models.Exam

/-!
# What the exam handlers do to exams

A handler of the admin routes is a program over the operations of the store, the statements it sends
to the database and the uploads of files. A statement takes the id of its exam as a text, and
PostgreSQL reads a number from it.
-/

namespace ExamVan.Admin

open ByteString Models Http

abbrev Rows := List (List Bytes)

/-- The statements about the one exam that their parameter names. -/
inductive ExamStatement
  /-- `SELECT name,active_token FROM exams WHERE id=$1` -/
  | header
  /-- `SELECT … FROM submissions s WHERE s.exam_id=$1 ORDER BY s.id DESC LIMIT $2 OFFSET $3` -/
  | submissions
  /-- `SELECT … FROM exam_approvals WHERE exam_id=$1 AND status='pending' … LIMIT $2 OFFSET $3` -/
  | pendingApprovals
  /-- `UPDATE exam_approvals SET status=$3,updated_at=now() WHERE exam_id=$1 AND mac_address=$2` -/
  | setApproval
  /-- `SELECT auto_approve FROM exams WHERE id=$1` -/
  | autoApprove
  /-- `UPDATE exams SET auto_approve=$2 WHERE id=$1` -/
  | setAutoApprove
  /-- `SELECT … FROM admin_audit_logs WHERE exam_id=$1 ORDER BY created_at DESC LIMIT $2` -/
  | auditLogs
  /-- `INSERT INTO admin_audit_logs (exam_id,user_id,username,action,detail) VALUES …` -/
  | insertAudit
  /-- `SELECT … FROM exam_pengawas ep JOIN admin_users u … WHERE ep.exam_id=$1` -/
  | assignedPengawas
  /-- `SELECT … FROM admin_users u WHERE … u.instansi=(SELECT … WHERE e.id=$1)` -/
  | availablePengawas
  /-- `SELECT user_id FROM exam_pengawas WHERE exam_id=$1` -/
  | assignedPengawasIds
  /-- `SELECT COUNT(*) FROM admin_users u JOIN exams e ON e.id=$1 … WHERE u.id=ANY($2::int[]) …` -/
  | countValidPengawas
  /-- `DELETE FROM exam_pengawas WHERE exam_id=$1` -/
  | deletePengawas
  /-- `INSERT INTO exam_pengawas (exam_id,user_id) VALUES ($1,$2)` -/
  | insertPengawas
  /-- `UPDATE exams SET delegated_to=$1 WHERE id=$2` -/
  | delegateTo
  /-- `UPDATE exams SET delegated_to=NULL WHERE id=$1` -/
  | undelegate
  deriving DecidableEq

def ExamStatement.isWrite : ExamStatement → Bool
  | .setApproval | .setAutoApprove | .insertAudit | .deletePengawas | .insertPengawas
  | .delegateTo | .undelegate => true
  | _ => false

/-- The statements that name no exam. -/
inductive OtherStatement
  /-- `SELECT instansi FROM admin_users WHERE id=$1` -/
  | instansi
  /-- `SELECT id,username FROM admin_users WHERE id=$1` -/
  | username
  /-- the active teachers of an institution, and its active supervisors -/
  | gurus
  | pengawas
  /-- `SELECT COALESCE(instansi,''),role,status FROM admin_users WHERE id=$1` -/
  | roleOf
  | begin
  | commit
  | rollback
  deriving DecidableEq

/-- Whose submissions `export_submissions_xlsx` selects. -/
inductive ExportFilter
  | nothing
  | one (id : Int32)
  | some (ids : List Int32)
  | everything
  deriving DecidableEq

inductive Op
  | getById (id : Int32)
  | listAll
  | update (id : Int32) (mutate : Exam → Exam)
  | remove (id : Int32)
  | claimToken (token : Bytes)
  | claimTokenIfAbsent (token : Bytes) (id : Int32)
  | unclaimToken (token : Bytes)
  /-- `with_pg`, and a live connection from the pool -/
  | acquire
  | examQuery (s : ExamStatement) (idText : Bytes) (params : List Bytes)
  | otherQuery (s : OtherStatement) (params : List Bytes)
  | exportSubmissions (filter : ExportFilter)
  /-- the upload of an exam's file and its verification -/
  | upload (id : Int32) (filePath data : Bytes)

/-- What an operation answers: `update` the exam that the mutator saw, a statement its rows, or
`none` if it fails. -/
abbrev Ans : Op → Type
  | .getById _ | .update _ _ => Option Exam
  | .listAll => List Exam
  | .remove _ | .claimToken _ | .claimTokenIfAbsent _ _ | .acquire | .upload _ _ _ => Bool
  | .unclaimToken _ => Unit
  | .examQuery _ _ _ | .otherQuery _ _ | .exportSubmissions _ => Option Rows

/-- What a handler answers: a response, or the data that its body is written from. -/
inductive ExamReply
  | response (r : Response)
  | questions (e : Exam) (assigned available : Rows)
  | delegation (owner delegated gurus pengawas assigned : Option Rows)
  | page (header : Option Rows) (rows : Rows) (page perPage : Int)
  | export (rows : Rows)
  deriving DecidableEq

abbrev HandlerProg := Prog Op Ans ExamReply

def respond (r : Response) : HandlerProg := .done (.response r)

namespace Exams

abbrev getById (id : Int32) : Prog Op Ans (Option Exam) := .op (Op.getById id)

abbrev listAll : Prog Op Ans (List Exam) := .op Op.listAll

abbrev update (id : Int32) (mutate : Exam → Exam) : Prog Op Ans (Option Exam) :=
  .op (Op.update id mutate)

abbrev remove (id : Int32) : Prog Op Ans Bool := .op (Op.remove id)

abbrev claimToken (token : Bytes) : Prog Op Ans Bool := .op (Op.claimToken token)

abbrev claimTokenIfAbsent (token : Bytes) (id : Int32) : Prog Op Ans Bool :=
  .op (Op.claimTokenIfAbsent token id)

abbrev unclaimToken (token : Bytes) : Prog Op Ans Unit := .op (Op.unclaimToken token)

end Exams

namespace Pg

abbrev acquire : Prog Op Ans Bool := .op Op.acquire

abbrev exam (s : ExamStatement) (idText : Bytes) (params : List Bytes) :
    Prog Op Ans (Option Rows) := .op (Op.examQuery s idText params)

abbrev other (s : OtherStatement) (params : List Bytes) : Prog Op Ans (Option Rows) :=
  .op (Op.otherQuery s params)

abbrev exportSubmissions (filter : ExportFilter) : Prog Op Ans (Option Rows) :=
  .op (Op.exportSubmissions filter)

end Pg

abbrev uploadFile (id : Int32) (filePath data : Bytes) : Prog Op Ans Bool :=
  .op (Op.upload id filePath data)

/-! ### The exams that an operation is about -/

section

variable (int4in : Bytes → Option Int32)

/-- The answer may depend on the data of exam `m`. `int4in` is how PostgreSQL reads an id. -/
def Op.concerns (m : Int32) : Op → Prop
  | .getById id | .update id _ | .remove id | .upload id _ _ => m = id
  | .examQuery _ idText _ => int4in idText = some m
  | .exportSubmissions (.one id) => m = id
  | .exportSubmissions (.some ids) => m ∈ ids
  | .exportSubmissions .everything | .listAll => True
  | _ => False

/-- The operation may change the data of exam `m`. -/
def Op.writes (m : Int32) : Op → Prop
  | .update id _ | .remove id | .upload id _ _ => m = id
  | .examQuery s idText _ => s.isWrite = true ∧ int4in idText = some m
  | _ => False

theorem Op.concerns_of_writes {m : Int32} {op : Op} (h : op.writes int4in m) :
    op.concerns int4in m := by
  cases op <;> simp_all [writes, concerns]

/-- The two answers are the same as far as exam `n` is concerned. -/
def AnswersAgree (n : Int32) : (op : Op) → Ans op → Ans op → Prop
  | .listAll, a, a' => a.filter (fun e => e.id = n) = a'.filter fun e => e.id = n
  | op, a, a' => (∀ m, op.concerns int4in m → m = n) → a = a'

/-- A program that reads and writes exam `n` and no other: in two worlds that differ only in the
data of other exams it does the same and answers the same, and what it writes is exam `n`. -/
structure OnlyExam (n : Int32) (p : HandlerProg) : Prop where
  reads : ∀ w w' : Prog.World Op Ans,
    (∀ past op, AnswersAgree int4in n op (w past op) (w' past op)) → p.run w [] = p.run w' []
  writes : ∀ (w : Prog.World Op Ans), ∀ op ∈ (p.run w []).1, ∀ m, op.writes int4in m → m = n

/-- An operation on exam `n`, or on none. -/
def Op.About (n : Int32) (op : Op) : Prop :=
  ∀ m, op.concerns int4in m → m = n

variable {int4in}

theorem OnlyExam.of_lockstep {n : Int32} {p : HandlerProg}
    (hreads : Prog.Lockstep (AnswersAgree int4in n) p p)
    (hwrites : p.All fun op => ∀ m, op.writes int4in m → m = n) : OnlyExam int4in n p where
  reads _ _ hw := Prog.run_eq_of_lockstep hreads hw
  writes _ := hwrites.of_mem_run (by simp)

theorem eq_of_answersAgree {n : Int32} {op : Op} (habout : op.About int4in n) (a a' : Ans op)
    (h : AnswersAgree int4in n op a a') : a = a' := by
  cases op
  case listAll =>
    -- the list of all exams is about every exam, of which there is more than one
    exact absurd ((habout 0 trivial).trans (habout 1 trivial).symm) (by decide)
  all_goals exact h habout

/-- A program whose operations are all on exam `n`. -/
theorem OnlyExam.of_all {n : Int32} {p : HandlerProg} (h : p.All (Op.About int4in n)) :
    OnlyExam int4in n p :=
  .of_lockstep (Prog.lockstep_self (h.mono fun _ habout => eq_of_answersAgree habout))
    (h.mono fun _ habout m hm => habout m (Op.concerns_of_writes int4in hm))

end

end ExamVan.Admin
