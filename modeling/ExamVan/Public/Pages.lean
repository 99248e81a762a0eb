import ExamVan.Admin.CreateExam
import ExamVan.Api.Result
import ExamVan.Public.Hasil
import ExamVan.Utils.Secrecy

/-!
# What is served without a session

`exam_by_token` describes an exam of the memory store to those who hold its token. The result pages
read a row of the table, by the permanent token. Both are modelled for an exam without submissions,
at one moment.
-/

namespace ExamVan.Public

open ByteString Models Http Queue Middleware Db
open Admin (isProtobufAccept)
open Api (PollEnv examResult examStarted fieldOr parseForm)
open Store (MemoryStore)
open Utils (studentQuestions resultQuestions)

/-! ### Numbers -/

/-- `%.2f`, for the exact value. -/
def fixedTwo (x : ℚ) : Bytes :=
  let n := x.num.natAbs * 100
  let cents := n / x.den
  let left := 2 * (n % x.den)
  let rounded :=
    if left < x.den then cents else if x.den < left then cents + 1 else cents + cents % 2
  (if x < 0 then [chr '-'] else []) ++ natText (rounded / 100) ++ chr '.' ::
    (natText (rounded / 10 % 10) ++ natText (rounded % 10))

/-- `fmt_num`, with its buffer of 32 bytes. -/
def fmtNum (x : ℚ) : Bytes :=
  let s := ((fixedTwo x).take 31).rdropWhile (· = chr '0')
  let t := if s.getLast? = some (chr '.') then s.dropLast else s
  if t = [] then str "0" else t

/-! ### The world -/

/-- `ExamByTokenResponse`. -/
structure ExamByTokenResponse where
  success : Bool
  error : Bytes := []
  token : Bytes := []
  status : Bytes := []

/-- The generated code for the two messages; `CekHasilApiResponse` has its flags set only. -/
structure PublicCodec where
  examByToken : ExamByTokenResponse → Bytes
  cekHasilApi : Bytes

/-- What one call of an endpoint meets. -/
structure World where
  stod : Bytes → Option ℚ
  hash : Bytes → UInt64
  clock : Admin.Clock
  /-- the time, the random token and the transaction of a rotation -/
  io : Admin.Surroundings := {}
  store : MemoryStore
  /-- the rows of `exams` -/
  table : List Exam := []
  tablePool : PoolOutcome := {}
  tableAcquired : Bool := true
  /-- `is_logged_in` -/
  isLoggedIn : Request → Bool := fun _ => false
  /-- the lookups of the pages behind the exam's own -/
  pagePool : PoolOutcome := {}
  pageAcquired : Bool := true
  usernameOf : Int32 → Option Bytes := fun _ => none
  /-- what `exam_result` meets besides the store -/
  poll : PollEnv
  /-- the codec of a build with `HAS_PROTOBUF` -/
  protobuf : Option PublicCodec := none

variable (w : World) (req : Request)

def World.codec : Option PublicCodec := if isProtobufAccept req then w.protobuf else none

/-! ### `exam_by_token` -/

/-- The exam after the rotation. -/
def World.joined (e : Exam) : Exam :=
  let token := (ExamToken.drawToken w.io.random).text
  let rotated := Admin.rotate token (w.clock.format w.io.now) e
  if Admin.rotationDue w.clock w.io.now e then
    match w.io.pg with
    | .rotated => rotated
    | .fresh activeToken lastResetAt =>
        if activeToken = [] then e else Admin.rotate activeToken lastResetAt e
    | .none =>
        if (w.store.getById e.id).any (Admin.rotationStillDue w.clock w.io.now) then rotated else e
  else e

def World.joinRefusal (status : Nat) (error : Bytes) (json : Response) : Response :=
  match w.codec req with
  | some codec => ⟨status, codec.examByToken { success := false, error := error }⟩
  | none => json

def World.tokenNotFound : Response :=
  w.joinRefusal req 404 (str "token not found") Admin.tokenNotFound

def joinToken : Bytes := fieldOr req.params (str "token") []

/-- The exam that a join describes, or its refusal. -/
def World.opened : Except Response Exam :=
  if !ExamToken.isValidExamToken (joinToken req) then .error (w.tokenNotFound req)
  else match Admin.lookup w.store.exams (joinToken req) with
  | none => .error (w.tokenNotFound req)
  | some found =>
      let exam := w.joined found
      if !exam.isActive || !Admin.started exam then
        .error (w.joinRefusal req 403 (str "exam not started")
          ⟨403, str "\x7b\"success\":false,\"error\":\"exam not started\"," ++
            str "\"message\":\"Ujian belum dimulai\"\x7d"⟩)
      else if Admin.scheduleEnded w.clock w.io.now exam then
        .error (failure 403 (str "Waktu ujian telah berakhir"))
      else .ok exam

def defaultIdentityFields : Bytes :=
  str "[\x7b\"key\":\"student_name\",\"label\":\"Nama\",\"required\":true\x7d," ++
    str "\x7b\"key\":\"exam_number\",\"label\":\"Nomor Ujian\",\"required\":true\x7d," ++
    str "\x7b\"key\":\"student_class\",\"label\":\"Kelas\",\"required\":true\x7d]"

def identityFieldsOf (e : Exam) : Bytes :=
  let fields := e.identityFields.getD []
  if fields = [] then defaultIdentityFields else fields

/-- The 200 of a join before its questions. -/
def describedHead (e : Exam) : Bytes :=
  str "\x7b\"success\":true,\"exam\":\x7b\"id\":" ++ intText e.id.toInt ++
    str ",\"name\":" ++ quoted e.name ++ str ",\"status\":" ++ quoted e.status ++
    str ",\"security_level\":" ++ quoted e.securityLevel ++
    str ",\"strict_mode\":" ++ Api.boolText (e.strictMode ≠ 0) ++
    str ",\"public_results\":" ++ intText e.publicResults.toInt ++
    str ",\"show_answers\":" ++ intText e.showAnswers.toInt ++
    str ",\"size_mb\":" ++ (fixedTwo (e.sizeBytes.toInt / 1048576)).take 31 ++
    str ",\"time_limit\":null,\"identity_fields\":" ++ identityFieldsOf e ++
    str ",\"panel_color\":" ++ quoted (e.panelColor.getD (str "#6366f1")) ++ str ",\"questions\":"

def describe (e : Exam) : Response :=
  ⟨200, describedHead e ++ studentQuestions e.questionsJson ++ str "\x7d\x7d"⟩

def World.examByToken : Response :=
  match w.opened req with
  | .error r => r
  | .ok exam =>
      match w.codec req with
      | some codec =>
          ⟨200, codec.examByToken { success := true, token := joinToken req, status := exam.status }⟩
      | none => describe exam

/-! ### The result pages -/

/-- `upper_trim`, which drops the blanks in between as well. -/
def upperTrim (s : Bytes) : Bytes := (s.filter fun c => !isSpace c).map toupper

def pageToken : Bytes := upperTrim (fieldOr req.params (str "token") [])

/-- The columns that `get_exam_by_token` reads. -/
def readColumns (row : Exam) : Exam where
  id := row.id
  name := row.name
  token := row.token
  publicResults := row.publicResults
  showAnswers := row.showAnswers
  questionsJson := row.questionsJson.filter (· ≠ [])
  identityFields := row.identityFields.filter (· ≠ [])

/-- `get_exam_by_token`. -/
def World.getExamByToken (raw : Bytes) : Option Exam :=
  let query := fun found =>
    if w.tableAcquired then
      ((w.table.find? fun row => row.token = upperTrim raw).map readColumns).or found
    else found
  (withGlobalPg w.tablePool query none).2

def resultNotFound : Response :=
  ⟨404, str "\x7b\"success\":false,\"message\":\"Token ujian tidak valid atau ujian " ++
    str "tidak ditemukan.\"\x7d"⟩

/-- The exam whose results a request is given, or the refusal. -/
def World.granted : Except Response Exam :=
  if pageToken req = [] then .error resultNotFound
  else match w.getExamByToken (pageToken req) with
  | none => .error resultNotFound
  | some exam =>
      if exam.publicResults = 0 && !w.isLoggedIn req then
        .error ⟨403, str "\x7b\"success\":false,\"message\":\"Akses dinonaktifkan: Halaman hasil " ++
          str "ujian untuk siswa dinonaktifkan oleh guru.\"\x7d"⟩
      else .ok exam

/-- `parse_form` of the query. -/
def queryParam (key : Bytes) : Bytes := fieldOr (parseForm req.query) key []

def pageNumber : Int32 :=
  let page := (stoi (queryParam req (str "page"))).getD 1
  if page < 1 then 1 else if 1000000 < page then 1000000 else page

def perPage : Int32 :=
  let per := (stoi (queryParam req (str "per_page"))).getD 100
  if per < 1 then 1 else if 500 < per then 500 else per

/-- `max_score` as it is printed. -/
def maxScoreText (stod : Bytes → Option ℚ) (questionsJson : Option Bytes) : Bytes :=
  let best := maxScore (parseQuestions stod (questionsJson.getD []))
  if 0 < best then fmtNum best else str "null"

/-- The 200 of the result page before its questions. -/
def resultHead (e : Exam) : Bytes :=
  str "\x7b\"success\":true,\"exam_name\":" ++ quoted e.name ++
    str ",\"show_answers\":" ++ Api.boolText (e.showAnswers ≠ 0) ++
    str ",\"token\":" ++ quoted e.token ++ str ",\"questions\":"

def resultMiddle (e : Exam) : Bytes :=
  str ",\"identity_fields\":" ++ identityFieldsOf e ++ str ",\"max_score\":"

/-- What follows the best score, for an exam without submissions. -/
def resultTail : Bytes :=
  str ",\"submissions\":[],\"stats\":\x7b\"count\":0,\"average\":0,\"max\":0,\"min\":0\x7d," ++
    str "\"pagination\":\x7b\"page\":" ++ intText (pageNumber req).toInt ++
    str ",\"per_page\":" ++ intText (perPage req).toInt ++
    str ",\"total\":0,\"total_pages\":1\x7d\x7d"

def World.resultBody (e : Exam) : Bytes :=
  resultHead e ++ resultQuestions e.questionsJson e.showAnswers (w.isLoggedIn req) ++
    resultMiddle e ++ maxScoreText w.stod e.questionsJson ++ resultTail req

def World.cekHasilApi : Response :=
  match w.codec req with
  | some codec => ⟨200, codec.cekHasilApi⟩
  | none =>
      match w.granted req with
      | .error r => r
      | .ok exam => ⟨200, w.resultBody req exam⟩

/-- `HasilCtx`, where no submissions are counted. -/
structure HasilCtx where
  examName : Bytes := []
  token : Bytes
  creatorName : Bytes := []
  totalStudents : Bytes := str "0"
  error : Bool := false
  isDisabled : Bool := false
  isLoggedIn : Bool := false
  showAnswers : Bool := false

/-- The status and the context of `hasil_page`. -/
def World.hasilContext : Nat × HasilCtx :=
  let token := pageToken req
  if token = [] then (404, { token := token, error := true })
  else match w.getExamByToken token with
  | none => (404, { token := token, error := true })
  | some exam =>
      let logged := w.isLoggedIn req
      if exam.publicResults = 0 && !logged then
        (403, { token := token, isDisabled := true, examName := exam.name })
      else
        let creator := fun name =>
          if w.pageAcquired then (w.usernameOf exam.createdBy).getD name else name
        (200,
          { token := token
            examName := exam.name
            isLoggedIn := logged
            showAnswers := exam.showAnswers ≠ 0
            creatorName := (withGlobalPg w.pagePool creator []).2 })

/-! ### Endpoints -/

inductive Endpoint
  | examByToken
  | cekHasilApi
  | hasilPage
  | examResult
  deriving DecidableEq

/-- The request as the handlers under `api` take it. -/
def handed : Api.Request :=
  { headers := req.headers, body := req.body, query := req.query, params := req.params }

/-- The answer of an endpoint; a page is what its template `html` makes of the context. -/
def World.answer (html : HasilCtx → Bytes) : Endpoint → Response
  | .examByToken => w.examByToken req
  | .cekHasilApi => w.cekHasilApi req
  | .hasilPage => ⟨(w.hasilContext req).1, html (w.hasilContext req).2⟩
  | .examResult => examResult w.hash { w.poll with getById := w.store.getById } (handed req)

end ExamVan.Public
