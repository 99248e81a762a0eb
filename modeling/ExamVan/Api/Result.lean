import ExamVan.Api.Approval
import ExamVan.Queue.RoundTrip

/-!
# Polling for the result

The worker stores a result under the job's id, as one object. `exam_result` finds the members of that
object by the first occurrence of their quoted names and compares device, exam and the fingerprint of
the identity before it gives the score away. Without a stored result it asks the database.
-/

namespace ExamVan.Api

open ByteString Queue Models Db Http

/-! ### Stored results -/

/-- `JobResult`, with its score as it is printed. -/
structure JobResult where
  jobId : Bytes
  examId : Int32 := 0
  macAddress : Bytes
  identityData : Bytes
  identityHash : Bytes
  success : Bool := false
  score : Option Bytes := none
  message : Bytes
  processedAt : Bytes

def boolText (b : Bool) : Bytes := if b then str "true" else str "false"

def scoreText (score : Option Bytes) : Bytes := score.getD (str "null")

/-- The members of a stored result up to its flag. -/
def JobResult.members (r : JobResult) : List Member :=
  [(str "job_id", .text r.jobId), (str "exam_id", .number r.examId),
    (str "mac_address", .text r.macAddress), (str "identity_data", .text r.identityData),
    (str "identity_hash", .text r.identityHash)]

/-- The members behind the flag up to the score. -/
def JobResult.remarks (r : JobResult) : List Member :=
  [(str "message", .text r.message), (str "processed_at", .text r.processedAt)]

/-- `JobResult::to_json`. -/
def JobResult.toJson (r : JobResult) : Bytes :=
  chr '\x7b' :: (membersText true r.members ++
    chr ',' :: (member (str "success") (boolText r.success) ++ (membersText false r.remarks ++
      chr ',' :: (member (str "score") (scoreText r.score) ++ [chr '\x7d']))))

/-- The text of which `identity_fingerprint` takes the hash. -/
def fingerprintText (m : StringMap) : Bytes :=
  m.entries.flatMap fun kv => kv.1 ++ 0x1f :: (kv.2 ++ [0x1e])

/-- `%016zx`. -/
def hexText (h : UInt64) : Bytes :=
  (List.range 16).reverse.map fun i => hexDigit (h.toNat / 16 ^ i % 16)

/-- `identity_fingerprint`, with `std::hash` for its parameter. -/
def identityFingerprint (hash : Bytes → UInt64) (m : StringMap) : Bytes :=
  hexText (hash (fingerprintText m))

/-- What the worker stores for a job that has been persisted. -/
def successResult (hash : Bytes → UInt64) (job : SubmissionJob) (score : Option Bytes)
    (processedAt : Bytes) : JobResult where
  jobId := job.jobId
  examId := job.examId
  macAddress := job.macAddress
  identityData := mapToJson job.identityData
  identityHash := identityFingerprint hash job.identityData
  success := true
  score := score
  message := str "ok"
  processedAt := processedAt

/-- `generate_job_id`, from eight random bytes. -/
def generateJobId (random : List UInt8) : Bytes :=
  random.flatMap fun b => [hexDigit (b.toNat / 16), hexDigit (b.toNat % 16)]

/-! ### The poll -/

/-- What one poll meets. -/
structure PollEnv where
  getById : Int32 → Option Exam
  deviceApproved : Int32 → Bytes → Bool := fun _ _ => false
  rateLimitAllowed : Bytes → Int32 → Bytes → Bytes → Nat → Bool := fun _ _ _ _ _ => true
  /-- what the test hook or Redis returns for a job id, or nothing -/
  result : Bytes → Bytes
  pool : PoolOutcome := {}
  /-- the lookup's own `acquire` -/
  acquired : Bool := true
  /-- the score in the row of a job, exam and device, if the query finds one -/
  scoreOf : Bytes → Int32 → Bytes → Option Bytes := fun _ _ _ => none

def doneResponse (score : Bytes) : Response :=
  ⟨200, str "\x7b\"success\":true,\"status\":\"done\",\"score\":" ++ score ++
    str ",\"message\":\"Jawaban berhasil disimpan\"\x7d"⟩

def failedResponse : Response :=
  ⟨200, str ("\x7b\"success\":false,\"status\":\"failed\",\"score\":null," ++
    "\"message\":\"Gagal memproses jawaban\"\x7d")⟩

def pendingResponse : Response :=
  ⟨200, str ("\x7b\"success\":true,\"status\":\"pending\",\"score\":null," ++
    "\"message\":\"Jawaban masih diproses\"\x7d")⟩

/-- A parameter of the query. -/
def queryParam (req : Request) (key : Bytes) : Bytes := fieldOr (parseForm req.query) key []

/-- A header, or a parameter of the query without it. -/
def headerOr (req : Request) (header key : Bytes) : Bytes :=
  (req.headers.find? header).getD (queryParam req key)

def pollMac (req : Request) : Bytes :=
  sanitizeMacLikeGo (headerOr req (str "X-Device-Id") (str "mac_address"))

def pollIdentity (req : Request) : Bytes :=
  sanitizeIdentityMapJson (queryParam req (str "identity_data"))

def pollToken (req : Request) : Bytes := headerOr req (str "X-Exam-Token") (str "token")

/-- The number behind the first `"score":`, or nothing for `null`. -/
def storedScore (raw : Bytes) : Bytes :=
  match findSub (str "\"score\":") raw with
  | none => []
  | some t =>
      match (t.drop 8).dropWhile fun c => c = chr ' ' || c = chr '\t' with
      | [] => []
      | c :: u =>
          if c = chr 'n' ∨ c = chr 'N' then []
          else (c :: u).takeWhile fun c => !(c = chr ',' || c = chr '\x7d')

def storedSuccess (raw : Bytes) : Bool :=
  (findSub (str "\"success\":true") raw).isSome || (findSub (str "\"success\": true") raw).isSome

/-- The stored result is for another job, exam or device. -/
def otherDevice (raw jobId mac : Bytes) (examId : Int32) : Bool :=
  let storedMac := jsonStringField raw (str "mac_address")
  let storedExam := stoiOrZero (jsonRawValue raw (str "exam_id"))
  jsonStringField raw (str "job_id") ≠ jobId || (0 < storedExam && storedExam ≠ examId) ||
    (storedMac ≠ [] && sanitizeMacLikeGo storedMac ≠ mac)

/-- The stored result is for another identity than the one that the poll names. -/
def otherIdentity (hash : Bytes → UInt64) (raw identity : Bytes) : Bool :=
  let stored := jsonStringField raw (str "identity_hash")
  stored ≠ [] && identity ≠ [] && identityFingerprint hash (parseStringMap identity) ≠ stored

/-- The answer from a stored result. -/
def readResult (hash : Bytes → UInt64) (raw jobId mac identity : Bytes) (examId : Int32) :
    Response :=
  if otherDevice raw jobId mac examId then
    failure 403 (str "Hasil tidak cocok dengan perangkat atau ujian")
  else if otherIdentity hash raw identity then
    failure 403 (str "Hasil tidak cocok dengan identitas")
  else if storedSuccess raw then
    doneResponse (if storedScore raw = [] then str "null" else storedScore raw)
  else failedResponse

/-- The function that the poll passes to `with_global_pg`. -/
def lookUpScore (env : PollEnv) (jobId mac : Bytes) (examId : Int32) (found : Response) : Response :=
  if env.acquired then
    match env.scoreOf jobId examId mac with
    | none => found
    | some score => if score = [] then found else doneResponse score
  else found

/-- The answer without a stored result. A `Response` has status 200 from the start, so what the
lookup leaves is returned whether it found something or not. -/
def readDatabase (env : PollEnv) (jobId mac : Bytes) (examId : Int32) : Response :=
  if jobId ≠ [] ∧ mac ≠ str "unknown" ∧ mac ≠ [] then
    let result := (withGlobalPg env.pool (lookUpScore env jobId mac examId) ⟨200, []⟩).2
    if result.status ≠ 0 then result else pendingResponse
  else pendingResponse

/-- `exam_result` behind its gate. -/
def pollResult (hash : Bytes → UInt64) (env : PollEnv) (req : Request) (examId : Int32) : Response :=
  let jobId := queryParam req (str "job_id")
  let raw := if jobId = [] then [] else env.result jobId
  if raw = [] then readDatabase env jobId (pollMac req) examId
  else readResult hash raw jobId (pollMac req) (pollIdentity req) examId

/-- `exam_result`. -/
def examResult (hash : Bytes → UInt64) (env : PollEnv) (req : Request) : Response :=
  match fieldOr req.params (str "exam_id") [] with
  | [] => failure 400 (str "exam id required")
  | idText =>
  match stoi idText with
  | none => failure 400 (str "ID ujian tidak valid")
  | some examId =>
  match env.getById examId with
  | none => failure 404 (str "Ujian tidak ditemukan")
  | some exam =>
  let byToken := pollToken req ≠ [] && ExamToken.matchesToken exam (pollToken req)
  let byDevice := pollMac req ≠ str "unknown" && env.deviceApproved examId (pollMac req)
  if !byToken && !byDevice then failure 401 (str "Akses ditolak")
  else if !env.rateLimitAllowed (str "ratelimit:result:") examId (pollMac req)
      (fieldOr req.headers (str "X-Forwarded-For") []) 60 then
    failure 429 (str "Terlalu banyak request. Silakan coba lagi nanti.")
  else pollResult hash env req examId

end ExamVan.Api
