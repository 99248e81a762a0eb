import ExamVan.Api.Body
import ExamVan.Helpers.IsoUtc
import ExamVan.Http.Router
import ExamVan.Presence.Hub
import Mathlib.Data.List.DropRight

/-!
# Presence over HTTP

`access_log` records that a device is there and `complete_exam` forgets it. Between the device address
and the two there are the rate limit, the exam, its token and its approvals: `admitted` stands for
these.
-/

namespace ExamVan.Presence

open ByteString Queue

/-- A text between quotes that is not escaped. -/
def bare (s : Bytes) : Bytes := chr '"' :: (s ++ [chr '"'])

/-- `data` of `push_heartbeat_presence` -/
def presenceData (r : Report) (ip event lastSeen : Bytes) : Bytes :=
  chr '{' :: (member (str "student_name") (quoted r.studentName) ++
    chr ',' :: (member (str "exam_number") (quoted r.examNumber) ++
    chr ',' :: (member (str "student_class") (quoted r.studentClass) ++
    chr ',' :: (member (str "device_info") (quoted r.deviceInfo) ++
    chr ',' :: (member (str "ip_address") (quoted ip) ++
    chr ',' :: (member (str "event") (bare event) ++
    chr ',' :: (member (str "last_seen") (bare lastSeen) ++ [chr '}'])))))))

/-- `qp`: the exam and the device, and then the data after its brace. -/
def queuePayload (r : Report) (ip event lastSeen : Bytes) : Bytes :=
  chr '{' :: (member (str "exam_id") (intText r.examId.toInt) ++
    chr ',' :: (member (str "mac_address") (quoted r.mac) ++
    chr ',' :: (presenceData r ip event lastSeen).tail))

/-- `push_heartbeat_presence` with a connection to Redis, at the time `now`. -/
def pushHeartbeatPresence (r : Report) (ip event : Bytes) (now : Int) : List RedisCommand :=
  let lastSeen := Helpers.formatIsoUtc now
  .set (presenceKey r.examId r.mac) (presenceData r ip event lastSeen) 300 ::
    if event = str "heartbeat" then
      [.lpush kHeartbeatQueueKey (queuePayload r ip event lastSeen)]
    else []

/-! ### The requests -/

/-- The exam of the path. -/
def examParam (req : Http.Request) : Option Int32 := (req.params.find? (str "exam_id")).bind stoi

/-- A field of the form, or the given value if the form does not have it. -/
def formOr (form : StringMap) (key value : Bytes) : Bytes := (form.find? key).getD value

/-- The address as it is sent: in the JSON, or else in the form. -/
def httpAddress (body : Bytes) : Bytes :=
  let mac := Api.jsonStringField body (str "mac_address")
  if mac = [] then formOr (Api.parseForm body) (str "mac_address") mac else mac

/-- Any other field is taken from the form only where the JSON has no address. -/
def accessField (body key : Bytes) : Bytes :=
  let value := Api.jsonStringField body key
  if Api.jsonStringField body (str "mac_address") = [] then formOr (Api.parseForm body) key value
  else value

def isContinuation (c : UInt8) : Bool := c &&& 0xC0 = 0x80

/-- `truncate_bytes` -/
def truncateBytes (s : Bytes) (n : Nat) : Bytes :=
  if s.length ≤ n then s else (s.take n).rdropWhile isContinuation

def accessEvent (body : Bytes) : Bytes :=
  let event := accessField body (str "event")
  if event = [] then str "heartbeat" else event

def accessReport (examId : Int32) (body : Bytes) : Report :=
  { examId
    mac := Api.sanitizeMacLikeGo (httpAddress body)
    studentName := truncateBytes (accessField body (str "student_name")) 200
    examNumber := truncateBytes (accessField body (str "exam_number")) 100
    studentClass := truncateBytes (accessField body (str "student_class")) 100
    deviceInfo := truncateBytes (accessField body (str "device_info")) 200 }

/-- What `access_log` asks of Redis. -/
def accessLog (admitted : Report → Bool) (now : Int) (req : Http.Request) : List RedisCommand :=
  match examParam req with
  | none => []
  | some examId =>
      let event := accessEvent req.body
      let r := accessReport examId req.body
      if (event = str "login" ∨ event = str "heartbeat") ∧ admitted r then
        pushHeartbeatPresence r (formOr req.headers (str "X-Forwarded-For") []) event now
      else []

/-- What `complete_exam` asks of Redis. -/
def completeExam (admitted : Int32 → Bytes → Bool) (req : Http.Request) : List RedisCommand :=
  match examParam req with
  | none => []
  | some examId =>
      let mac := Api.sanitizeMacLikeGo (httpAddress req.body)
      if mac = str "unknown" then []
      else if admitted examId mac then [.del (presenceKey examId mac)]
      else []

end ExamVan.Presence
