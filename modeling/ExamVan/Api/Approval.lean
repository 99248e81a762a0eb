import ExamVan.Admin.Upload
import ExamVan.Api.Submit
import ExamVan.Lib.Threads

/-!
# Asking for approval

`request_approval` computes a status from the exam, and replaces it by the one that its INSERT
returns, if the INSERT returns one. No other statement of the transaction is looked at, and `pg_used`
is set before the connection is.
-/

namespace ExamVan.Api

open ByteString Queue Models Db Http

/-! ### Requests -/

/-- What a request asks for, after the checks. -/
structure ApprovalRequest where
  examId : Int32
  mac : Bytes
  studentName : Bytes
  examNumber : Bytes
  studentClass : Bytes
  identityData : Bytes
  reset : Bool
  /-- the exam approves automatically -/
  autoApprove : Bool
  deriving DecidableEq

/-- `real.acquire()` in the handler. -/
inductive Connection
  | null
  | bad
  | live
  deriving DecidableEq

/-- What the part on the database meets: the pool, the handler's own connection, and whether each
statement succeeds, if the server executes it. -/
structure ApprovalOutcome where
  pool : PoolOutcome := {}
  connection : Connection := .live
  begins : Bool := true
  locks : Bool := true
  readsCap : Bool := true
  counts : Bool := true
  inserts : Bool := true
  commits : Bool := true

/-- What one call meets. -/
structure ApprovalEnv where
  getById : Int32 → Option Exam
  rateLimitAllowed : Bytes → Int32 → Bytes → Bytes → Nat → Bool := fun _ _ _ _ _ => true
  scheduleEnded : Exam → Bool := fun _ => false
  /-- `device_has_approval` -/
  hasApproval : Int32 → Bytes → Bool := fun _ _ => false
  outcome : ApprovalOutcome := {}

/-- The loop of `truncate_bytes`: no tail of a character that was cut. -/
def truncateBytes (s : Bytes) (n : Nat) : Bytes :=
  if s.length ≤ n then s else (s.take n).rdropWhile fun c => c &&& 0xC0 = 0x80

/-- `sanitize_identity_map_json`. -/
def sanitizeIdentityMapJson (raw : Bytes) : Bytes :=
  if raw = [] then []
  else
    mapToJson (OrderedMap.empty.insertAll ((parseStringMap raw).entries.map fun kv =>
      (kv.1, (Admin.sanitizeStudentInput kv.2).take 200)))

/-- The texts of a request before they are checked. -/
structure ApprovalFields where
  token : Bytes
  examId : Bytes
  mac : Bytes
  studentName : Bytes
  examNumber : Bytes
  studentClass : Bytes
  reset : Bytes

/-- A raw JSON value, or the string under the same name. -/
def rawOrString (body key : Bytes) : Bytes :=
  if jsonRawValue body key = [] then jsonStringField body key else jsonRawValue body key

/-- The fields of the JSON; without an `exam_id` in it, a form's fields replace them. -/
def approvalFields (body : Bytes) : ApprovalFields :=
  let json : ApprovalFields :=
    { token := orForm (jsonStringField body (str "token")) body (str "token")
      examId := rawOrString body (str "exam_id")
      mac := jsonStringField body (str "mac_address")
      studentName := jsonStringField body (str "student_name")
      examNumber := jsonStringField body (str "exam_number")
      studentClass := jsonStringField body (str "student_class")
      reset := rawOrString body (str "reset") }
  if json.examId = [] then
    let form := parseForm body
    { token := fieldOr form (str "token") json.token
      examId := fieldOr form (str "exam_id") []
      mac := fieldOr form (str "mac_address") json.mac
      studentName := fieldOr form (str "student_name") json.studentName
      examNumber := fieldOr form (str "exam_number") json.examNumber
      studentClass := fieldOr form (str "student_class") json.studentClass
      reset := fieldOr form (str "reset") json.reset }
  else json

/-- The exam approves on its own. -/
def approvesAutomatically (env : ApprovalEnv) (exam : Exam) : Bool :=
  exam.autoApprove && examStarted exam && !env.scheduleEnded exam

/-- `request_approval` up to the database: a refusal, or what is asked for. -/
def checkApproval (env : ApprovalEnv) (req : Request) : Except Response ApprovalRequest :=
  let fields := approvalFields req.body
  let examId := (stoi fields.examId).getD 0
  let mac := sanitizeMacLikeGo fields.mac
  let ip := fieldOr req.headers (str "X-Forwarded-For") []
  if examId ≤ 0 then .error (failure 400 (str "exam id required"))
  else if mac = [] ∨ mac = str "unknown" then .error (failure 400 (str "MAC address diperlukan"))
  else match env.getById examId with
  | none => .error (failure 404 (str "Ujian tidak ditemukan"))
  | some exam =>
  if !env.rateLimitAllowed (str "ratelimit:reqapp-exam:") examId [] ip 12000 ||
      !env.rateLimitAllowed (str "ratelimit:reqapp-device:") examId mac ip 30 then
    .error (failure 429 (str "Terlalu banyak permintaan izin. Silakan coba lagi nanti."))
  else if !ExamToken.matchesToken exam fields.token && !env.hasApproval examId mac then
    .error (failure 401 (str "Token tidak valid"))
  else
    .ok
      { examId := examId
        mac := mac
        studentName := truncateBytes fields.studentName 200
        examNumber := truncateBytes fields.examNumber 100
        studentClass := truncateBytes fields.studentClass 100
        identityData := sanitizeIdentityMapJson (jsonRawValue req.body (str "identity_data"))
        reset := fields.reset = str "true" || fields.reset = str "1"
        autoApprove := approvesAutomatically env exam }

/-! ### The table -/

/-- A row of `exam_approvals`, without its key. -/
structure ApprovalRow where
  studentName : Bytes
  examNumber : Bytes
  studentClass : Bytes
  identityData : Bytes
  status : Bytes
  deriving DecidableEq

/-- The committed rows of one exam by their device, the advisory lock of its cap, and the device
whose row an open transaction has written. -/
structure ApprovalTable where
  rows : OrderedMap Bytes ApprovalRow
  locked : Bool := false
  uncommitted : Option Bytes := none

def approvedStatus : Bytes := str "approved"

def pendingStatus : Bytes := str "pending"

def isApproved (row : ApprovalRow) : Bool := row.status = approvedStatus

/-- `SELECT COUNT(*) FROM exam_approvals WHERE exam_id=$1 AND status='approved'`. -/
def ApprovalTable.approved (t : ApprovalTable) : Nat :=
  t.rows.entries.countP fun entry => isApproved entry.2

/-- `SELECT status FROM exam_approvals WHERE exam_id=$1 AND mac_address=$2`. -/
def ApprovalTable.statusOf (t : ApprovalTable) (mac : Bytes) : Option Bytes :=
  (t.rows.find? mac).map ApprovalRow.status

/-- The status of the INSERT, and of its `ON CONFLICT` on a row that is there. -/
def upsertStatus (reset auto : Bool) : Option Bytes → Bytes
  | none => if auto then approvedStatus else pendingStatus
  | some old =>
      if reset then
        if auto then approvedStatus else if old = approvedStatus then approvedStatus else pendingStatus
      else if auto ∧ old = pendingStatus then approvedStatus
      else old

/-- The row that the INSERT writes. -/
def upsertRow (r : ApprovalRequest) (auto : Bool) (t : ApprovalTable) : ApprovalRow where
  studentName := r.studentName
  examNumber := r.examNumber
  studentClass := r.studentClass
  identityData := r.identityData
  status := upsertStatus r.reset auto (t.statusOf r.mac)

/-- The cap of a value of `max_approvals_per_exam`, or of none. -/
def capOf (setting : Option Bytes) : Int64 := (setting.bind stoll).getD 500

/-- A cap of zero or less is no cap. -/
def configuredCap (setting : Option Bytes) : Option Nat :=
  if 0 < capOf setting then some (capOf setting).toInt.toNat else none

/-! ### One call, step by step -/

/-- What the server knows of the connection. -/
structure ApprovalSession where
  inTransaction : Bool
  aborted : Bool := false
  holdsLock : Bool := false
  deriving DecidableEq

/-- After a statement that failed. -/
def ApprovalSession.failed (s : ApprovalSession) : ApprovalSession :=
  { s with aborted := s.inTransaction }

/-- A transaction that has not failed. -/
def ApprovalSession.isOpen (s : ApprovalSession) : Bool := s.inTransaction && !s.aborted

/-- The server executes a statement with this outcome. -/
def ApprovalOutcome.runs (o : ApprovalOutcome) (s : ApprovalSession) (succeeds : Bool) : Bool :=
  o.connection = .live && succeeds && !s.aborted

/-- A 200 with its status, in JSON or protobuf, or another response. -/
inductive ApprovalReply
  | granted (status : Bytes)
  | refused (r : Response)
  deriving DecidableEq

/-- How far a call has come. An answer stands with the status of the device's row: the one that the
call has committed, or else the one that is there. -/
inductive ApprovalPhase
  | arrived
  | beginning (r : ApprovalRequest)
  | locking (r : ApprovalRequest) (s : ApprovalSession)
  | readingCap (r : ApprovalRequest) (s : ApprovalSession)
  | counting (r : ApprovalRequest) (s : ApprovalSession) (cap : Int64)
  | inserting (r : ApprovalRequest) (s : ApprovalSession) (auto : Bool)
  /-- with the status to answer and the row that the INSERT has written -/
  | committing (r : ApprovalRequest) (s : ApprovalSession) (status : Bytes)
      (row : Option ApprovalRow)
  | answered (reply : ApprovalReply) (left : Option Bytes)
  deriving DecidableEq

structure ApprovalCall where
  env : ApprovalEnv
  req : Request
  phase : ApprovalPhase

abbrev Approvals := Int32 → ApprovalTable

/-- The status before the transaction. -/
def ApprovalRequest.fallback (r : ApprovalRequest) : Bytes :=
  if r.autoApprove then approvedStatus else pendingStatus

/-- The handler up to its first statement. -/
def beginApproval (env : ApprovalEnv) (req : Request) : ApprovalPhase :=
  match checkApproval env req with
  | .error r => .answered (.refused r) none
  | .ok r =>
      if env.outcome.pool.reached && env.outcome.connection ≠ .null then .beginning r
      else if env.outcome.pool.configured then
        .answered (.refused (failure 503 (str "Database tidak tersedia"))) none
      else .answered (.granted r.fallback) none

def ApprovalTable.insertRow (t : ApprovalTable) (mac : Bytes) (row : ApprovalRow) : ApprovalTable :=
  { t with rows := t.rows.insert mac row }

/-- The table after `COMMIT`: in a transaction, its row is committed or not, and what it holds is
released. -/
def ApprovalTable.finish (t : ApprovalTable) (r : ApprovalRequest) (s : ApprovalSession)
    (commits : Bool) (row : Option ApprovalRow) : ApprovalTable :=
  if !s.inTransaction then t
  else
    match row with
    | none => { t with locked := t.locked && !s.holdsLock }
    | some row =>
        let t := if commits then t.insertRow r.mac row else t
        { t with locked := t.locked && !s.holdsLock, uncommitted := none }

/-- The status of the row that the call has committed, or else of the row that is there. -/
def leftStatus (t : ApprovalTable) (r : ApprovalRequest) (s : ApprovalSession) (commits : Bool) :
    Option ApprovalRow → Option Bytes
  | none => t.statusOf r.mac
  | some row => if s.inTransaction && !commits then t.statusOf r.mac else some row.status

/-- The next statement of a call; `none` is a statement that waits for a lock. -/
def ApprovalCall.next? (setting : Option Bytes) (c : ApprovalCall) (w : Approvals) :
    Option (ApprovalCall × Approvals) :=
  let o := c.env.outcome
  match c.phase with
  | .arrived => some ({ c with phase := beginApproval c.env c.req }, w)
  | .beginning r =>
      some ({ c with phase := .locking r { inTransaction := o.connection = .live && o.begins } }, w)
  | .locking r s =>
      let t := w r.examId
      if !o.runs s o.locks then some ({ c with phase := .readingCap r s.failed }, w)
      else if t.locked then none
      -- outside a transaction the lock is released with the statement
      else if !s.inTransaction then some ({ c with phase := .readingCap r s }, w)
      else
        some ({ c with phase := .readingCap r { s with holdsLock := true } },
          Function.update w r.examId { t with locked := true })
  | .readingCap r s =>
      if !o.runs s o.readsCap then some ({ c with phase := .counting r s.failed 500 }, w)
      else some ({ c with phase := .counting r s (capOf setting) }, w)
  | .counting r s cap =>
      if !(0 < cap && r.autoApprove) then
        some ({ c with phase := .inserting r s r.autoApprove }, w)
      else if !o.runs s o.counts then
        some ({ c with phase := .inserting r s.failed r.autoApprove }, w)
      else
        some ({ c with phase := .inserting r s (((w r.examId).approved : Int) < cap.toInt) }, w)
  | .inserting r s auto =>
      let t := w r.examId
      if !o.runs s o.inserts then
        some ({ c with phase := .committing r s.failed r.fallback none }, w)
      -- the row of an open transaction is locked
      else if t.uncommitted = some r.mac then none
      else
        let row := upsertRow r auto t
        some ({ c with phase := .committing r s row.status (some row) },
          Function.update w r.examId
            (if s.inTransaction then { t with uncommitted := some r.mac }
            else t.insertRow r.mac row))
  | .committing r s status row =>
      let t := w r.examId
      let commits := o.runs s o.commits
      some ({ c with phase := .answered (.granted status) (leftStatus t r s commits row) },
        Function.update w r.examId (t.finish r s commits row))
  | .answered _ _ => none

/-- All calls of `request_approval` in one process, with a setting and rows to start from. -/
def approvalCalls (setting : Option Bytes) (rows : Int32 → OrderedMap Bytes ApprovalRow) :
    System (Threads ApprovalCall Approvals) (Threads.Action (ApprovalEnv × Request)) :=
  Threads.system (fun input => ⟨input.1, input.2, .arrived⟩) (ApprovalCall.next? setting)
    fun examId => { rows := rows examId }

end ExamVan.Api
