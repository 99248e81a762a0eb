import ExamVan.Api.Body
import ExamVan.Helpers.IsoUtc
import ExamVan.Lib.Decimal
import ExamVan.Queue.Submissions
import Mathlib.Data.List.DropRight

/-!
# Presence over the hub

A privileged client reports the presence of a device in its room. The message is a protobuf one if
its first byte is neither a brace nor a quote and it parses as such; otherwise, and whenever no
device address came of it, the fields are looked for as JSON members. Their escapes stay as they are.
-/

/-!
## Queued heartbeats

The flusher reads a queued heartbeat as the worker reads a job: a field is the value after the first
occurrence of its quoted name in the whole text.
-/

namespace ExamVan.Presence

open ByteString Queue

structure HeartbeatPayload extends Queue.HeartbeatPayload where
  deviceInfo : Bytes := []
  ipAddress : Bytes := []
  event : Bytes := []

/-- `hb_extract`, which is `extract` of `from_json` word for word. -/
def hbExtract (s key : Bytes) : Bytes :=
  match findSub (needle key) s with
  | none => []
  | some t => scalarAfterColon t

theorem hbExtract_eq (s key : Bytes) : hbExtract s key = extract s key := rfl

def parseHeartbeatPayload (json : Bytes) : Option HeartbeatPayload :=
  if json = [] then none
  else if hbExtract json (str "exam_id") = [] then none
  else
    (stoi (hbExtract json (str "exam_id"))).map fun examId =>
      { examId
        macAddress := hbExtract json (str "mac_address")
        studentName := hbExtract json (str "student_name")
        examNumber := hbExtract json (str "exam_number")
        studentClass := hbExtract json (str "student_class")
        deviceInfo := hbExtract json (str "device_info")
        ipAddress := hbExtract json (str "ip_address")
        event := hbExtract json (str "event")
        lastSeen := hbExtract json (str "last_seen") }

/-! ### What the writers ask of Redis -/

inductive RedisCommand
  | set (key value : Bytes) (ex : Nat)
  | del (key : Bytes)
  | lpush (key value : Bytes)
  deriving DecidableEq

def kHeartbeatQueueKey : Bytes := str "examvan:heartbeats:pending"

def presenceKey (examId : Int32) (mac : Bytes) : Bytes :=
  str "heartbeat:" ++ (intText examId.toInt ++ chr ':' :: mac)

/-- What both writers are told of a device. -/
structure Report where
  examId : Int32
  mac : Bytes
  studentName : Bytes := []
  examNumber : Bytes := []
  studentClass : Bytes := []
  deviceInfo : Bytes := []
  deriving DecidableEq

end ExamVan.Presence

/-!
## Sanitizing what a WebSocket client sends
-/

namespace ExamVan.Utils

open ByteString

/-- Neither a control byte nor `DEL`. -/
def isVisible (c : UInt8) : Bool := 0x20 ≤ c && c ≠ 0x7f

def isMarkup (c : UInt8) : Bool :=
  c = chr '&' || c = chr '<' || c = chr '>' || c = chr '"' || c = chr '\'' || c = 0x60 || c = chr '='

/-- `sanitize_ws_field`. A byte is appended before the length is compared. -/
def sanitizeWsField (raw : Bytes) (maxLen : Nat) : Bytes :=
  (raw.filter fun c => !isMarkup c && isVisible c).take (max maxLen 1)

def trimSpaces (s : Bytes) : Bytes := (s.dropWhile isSpace).rdropWhile isSpace

/-- `sanitize_ws_mac` -/
def sanitizeWsMac (raw : Bytes) : Bytes := (trimSpaces (raw.filter isVisible)).take 100

theorem quote_notMem_sanitizeWsField (raw : Bytes) (maxLen : Nat) :
    chr '"' ∉ sanitizeWsField raw maxLen := by
  intro h
  have hkept := (List.mem_filter.mp (List.mem_of_mem_take h)).2
  exact absurd hkept (by decide)

end ExamVan.Utils

namespace ExamVan.Presence

open ByteString Queue Utils

/-- A string literal as it is written. -/
def literalAt : Bytes → Option Bytes
  | [] => none
  | c :: t => if c = chr '"' then (scanString t).map Prod.fst else none

/-- `Hub::extract_json_string` -/
def extractJsonString (json key : Bytes) : Bytes := Api.memberFrom literalAt key false false json

/-- The fields of `examvan::v1::Heartbeat` that the hub reads. -/
structure Heartbeat where
  macAddress : Bytes := []
  studentName : Bytes := []
  examNumber : Bytes := []
  studentClass : Bytes := []
  deviceInfo : Bytes := []
  deriving DecidableEq

def Heartbeat.sanitize (h : Heartbeat) : Heartbeat :=
  { macAddress := sanitizeWsMac h.macAddress
    studentName := sanitizeWsField h.studentName 200
    examNumber := sanitizeWsField h.examNumber 100
    studentClass := sanitizeWsField h.studentClass 100
    deviceInfo := sanitizeWsField h.deviceInfo 200 }

def jsonHeartbeat (json : Bytes) : Heartbeat :=
  { macAddress := extractJsonString json (str "mac_address")
    studentName := extractJsonString json (str "student_name")
    examNumber := extractJsonString json (str "exam_number")
    studentClass := extractJsonString json (str "student_class")
    deviceInfo := extractJsonString json (str "device_info") }

/-- `is_pb` -/
def isProtobuf : Bytes → Bool
  | [] => false
  | c :: _ => c ≠ chr '{' && c ≠ chr '"'

/-- What the hub takes out of a message; `parse` is `ParseFromArray`. -/
def readHeartbeat (parse : Bytes → Option Heartbeat) (payload : Bytes) : Heartbeat :=
  let pb := if isProtobuf payload then (parse payload).map Heartbeat.sanitize else none
  match pb with
  | some h => if h.macAddress = [] then (jsonHeartbeat payload).sanitize else h
  | none => (jsonHeartbeat payload).sanitize

/-- The exam of a client's room. -/
def roomExam (room : Bytes) : Option Int32 := (stoi room).filter (· ≠ 0)

/-- `handle_heartbeat` up to where it returns without a device address. -/
def heartbeatOf (parse : Bytes → Option Heartbeat) (privileged : Bool) (room payload : Bytes) :
    Option Report :=
  if privileged then
    (roomExam room).bind fun examId =>
      let h := readHeartbeat parse payload
      if h.macAddress = [] then none
      else some ⟨examId, h.macAddress, h.studentName, h.examNumber, h.studentClass, h.deviceInfo⟩
  else none

/-- `hb_json` -/
def hubData (r : Report) (lastSeen : Bytes) : Bytes :=
  chr '{' :: (member (str "student_name") (quoted r.studentName) ++
    chr ',' :: (member (str "exam_number") (quoted r.examNumber) ++
    chr ',' :: (member (str "student_class") (quoted r.studentClass) ++
    chr ',' :: (member (str "device_info") (quoted r.deviceInfo) ++
    chr ',' :: (member (str "event") (quoted (str "heartbeat")) ++
    chr ',' :: (member (str "last_seen") (quoted lastSeen) ++ [chr '}']))))))

/-- `qp`, which does without the device info -/
def hubPayload (r : Report) (lastSeen : Bytes) : Bytes :=
  chr '{' :: (member (str "exam_id") (intText r.examId.toInt) ++
    chr ',' :: (member (str "mac_address") (quoted r.mac) ++
    chr ',' :: (member (str "student_name") (quoted r.studentName) ++
    chr ',' :: (member (str "exam_number") (quoted r.examNumber) ++
    chr ',' :: (member (str "student_class") (quoted r.studentClass) ++
    chr ',' :: (member (str "event") (quoted (str "heartbeat")) ++
    chr ',' :: (member (str "last_seen") (quoted lastSeen) ++ [chr '}'])))))))

/-- `broadcast_payload` -/
def hubUpdate (r : Report) (room lastSeen : Bytes) : Bytes :=
  chr '{' :: (member (str "student_name") (quoted r.studentName) ++
    chr ',' :: (member (str "exam_number") (quoted r.examNumber) ++
    chr ',' :: (member (str "student_class") (quoted r.studentClass) ++
    chr ',' :: (member (str "event") (quoted (str "heartbeat")) ++
    chr ',' :: (member (str "last_seen") (quoted lastSeen) ++
    chr ',' :: (member (str "exam_id") (quoted room) ++
    chr ',' :: (member (str "mac_address") (quoted r.mac) ++ [chr '}'])))))))

/-- What a message makes the hub do: its commands, and its `student_update` to the client's room. -/
structure HubEffect where
  commands : List RedisCommand := []
  update : Option Bytes := none
  deriving DecidableEq

/-- `Hub::handle_heartbeat` -/
def handleHeartbeat (parse : Bytes → Option Heartbeat) (privileged : Bool) (room payload : Bytes)
    (now : Int) : HubEffect :=
  match heartbeatOf parse privileged room payload with
  | none => {}
  | some r =>
      let lastSeen := Helpers.formatIsoUtc now
      { commands :=
          [.set (presenceKey r.examId r.mac) (hubData r lastSeen) 300,
            .lpush kHeartbeatQueueKey (hubPayload r lastSeen)]
        update := some (hubUpdate r room lastSeen) }

/-- The address in a message of a completed exam; `parse` reads `examvan::v1::ExamCompleted`. -/
def readCompleted (parse : Bytes → Option Bytes) (payload : Bytes) : Bytes :=
  let pb := if isProtobuf payload then (parse payload).map sanitizeWsMac else none
  match pb with
  | some mac =>
      if mac = [] then sanitizeWsMac (extractJsonString payload (str "mac_address")) else mac
  | none => sanitizeWsMac (extractJsonString payload (str "mac_address"))

def completedUpdate (room mac : Bytes) : Bytes :=
  chr '{' :: (member (str "event") (quoted (str "exam_completed")) ++
    chr ',' :: (member (str "exam_id") (quoted room) ++
    chr ',' :: (member (str "mac_address") (quoted mac) ++ [chr '}'])))

/-- `Hub::handle_exam_completed` -/
def handleExamCompleted (parse : Bytes → Option Bytes) (privileged : Bool) (room payload : Bytes) :
    HubEffect :=
  if privileged then
    match roomExam room with
    | none => {}
    | some examId =>
        let mac := readCompleted parse payload
        if mac = [] then {}
        else
          { commands := [.del (presenceKey examId mac)]
            update := some (completedUpdate room mac) }
  else {}

end ExamVan.Presence
