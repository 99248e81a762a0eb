import ExamVan.Helpers.IsoUtc
import ExamVan.Lib.Session
import ExamVan.Presence.Hub
import ExamVan.Queue.Persist

/-!
# Draining the heartbeats

A drain moves queued heartbeats to the database, up to 500 in one transaction, with a savepoint
around every one of them. Whether a command or a statement succeeds is not the program's to say. The
results of `BEGIN` and of the statements about savepoints are not looked at, and a batch whose
`COMMIT` fails is pushed back.

A payload travels with a ticket that the program knows nothing of; the tickets count the payloads in
the order in which they arrive.
-/

namespace ExamVan.Presence

open ByteString Queue Helpers

/-! ### The database -/

/-- A row of `student_access_logs`. -/
structure AccessRow where
  examId : Int32
  studentIdentifier : Bytes
  studentName : Bytes
  examNumber : Bytes
  studentClass : Bytes
  event : Bytes
  ipAddress : Bytes
  deviceInfo : Bytes
  createdAt : Bytes
  deriving DecidableEq

/-- The two tables, with the tickets of the heartbeats that have a row in the first. -/
structure MonitorDb where
  logs : List AccessRow
  submissions : SubmissionTable
  recorded : List Nat

section

variable (ticket : Nat) (hb : HeartbeatPayload) (now : Bytes)

def accessRow : AccessRow :=
  { examId := hb.examId
    studentIdentifier := param hb.macAddress
    studentName := param hb.studentName
    examNumber := param hb.examNumber
    studentClass := param hb.studentClass
    event := param (if hb.event = [] then str "heartbeat" else hb.event)
    ipAddress := param hb.ipAddress
    deviceInfo := param hb.deviceInfo
    createdAt := param (if hb.lastSeen = [] then now else hb.lastSeen) }

def logStatement (db : MonitorDb) : Unit × MonitorDb :=
  ((), { db with
    logs := db.logs ++ [accessRow hb now]
    recorded := db.recorded ++ [ticket] })

/-- The answers of the device's row, if it has one. -/
def latestStatement (db : MonitorDb) : Option (Option Bytes) × MonitorDb :=
  ((db.submissions (hb.examId, param hb.macAddress)).map Row.answersJson, db)

def placeholderStatement (db : MonitorDb) : Unit × MonitorDb :=
  ((), { db with submissions := heartbeatPlaceholder hb.toHeartbeatPayload now db.submissions })

end

/-- `need_empty`, of what the `SELECT` returned -/
def needEmpty : Option (Option (Option Bytes)) → Bool
  | some (some answers) => answers.getD [] ≠ []
  | _ => true

/-! ### One payload -/

/-- Whether each statement for one payload succeeds, if the server executes it. -/
structure HeartbeatOutcome where
  now : Int := 0
  savepoint : Bool := true
  insert : Bool := true
  select : Bool := true
  placeholder : Bool := true
  release : Bool := true
  rollback : Bool := true
  rollbackRelease : Bool := true

/-- What became of a payload: whether its savepoint was set, and `row_ok`. -/
structure RowReport where
  ticket : Nat
  saved : Bool
  ok : Bool
  deriving DecidableEq

/-- The `SELECT`, and the placeholder if it asks for one. -/
def placeholderRow (o : HeartbeatOutcome) (hb : HeartbeatPayload) (s : Session MonitorDb) :
    Bool × Session MonitorDb :=
  let latest := s.exec o.select (latestStatement hb)
  if needEmpty latest.1 then
    let ph := latest.2.exec o.placeholder (placeholderStatement hb (formatIsoUtc o.now))
    (ph.1.isSome, ph.2)
  else (true, latest.2)

def drainRow (o : HeartbeatOutcome) (ticket : Nat) (hb : HeartbeatPayload) (s : Session MonitorDb) :
    RowReport × Session MonitorDb :=
  let save := s.savepoint o.savepoint
  let ins := save.2.exec o.insert (logStatement ticket hb (formatIsoUtc o.now))
  let row := if ins.1.isSome then placeholderRow o hb ins.2 else (false, ins.2)
  (⟨ticket, save.1, row.1⟩,
    if row.1 then (row.2.release o.release).2
    else ((row.2.rollbackTo o.rollback).2.release o.rollbackRelease).2)

/-- The loop over the payloads. A malformed one is dropped. -/
def drainRows : List HeartbeatOutcome → List Payload → Session MonitorDb →
    List RowReport × Session MonitorDb
  | _, [], s => ([], s)
  | outcomes, p :: rest, s =>
      match parseHeartbeatPayload p.text with
      | none => drainRows outcomes.tail rest s
      | some hb =>
          let row := drainRow (outcomes.headD {}) p.ticket hb s
          let later := drainRows outcomes.tail rest row.2
          (row.1 :: later.1, later.2)

/-! ### One batch -/

/-- One Redis command: what other clients push before it, and whether it is answered. -/
structure RedisStep where
  arrived : List Bytes := []
  ok : Bool := true

/-- What one batch meets. Past the end of a list every step succeeds and nothing arrives. -/
structure DrainOutcome where
  pops : List RedisStep := []
  begins : Bool := true
  rows : List HeartbeatOutcome := []
  commits : Bool := true
  pushes : List RedisStep := []

/-- The queue from the end that is read, the next ticket and the session. -/
structure DrainWorld where
  queue : List Payload
  next : Nat
  session : Session MonitorDb

def ticketed (first : Nat) (texts : List Bytes) : List Payload :=
  texts.zipIdx first |>.map fun t => ⟨t.2, t.1⟩

/-- Other clients push payloads. -/
def DrainWorld.arrive (texts : List Bytes) (w : DrainWorld) : DrainWorld :=
  { w with
    queue := w.queue ++ ticketed w.next texts
    next := w.next + texts.length }

def kHeartbeatBatchSize : Nat := 500

def kHeartbeatMaxBatches : Nat := 20

/-- The loop of `RPOP`s. -/
def popBatch : Nat → List RedisStep → DrainWorld → List Payload × DrainWorld
  | 0, _, w => ([], w)
  | n + 1, steps, w =>
      let arrived := w.arrive (steps.headD {}).arrived
      if (steps.headD {}).ok then
        match arrived.queue with
        | [] => ([], arrived)
        | p :: rest =>
            let later := popBatch n steps.tail { arrived with queue := rest }
            (p :: later.1, later.2)
      else ([], arrived)

/-- `requeue`; an `LPUSH` puts a payload at the end that is read last. -/
def requeue : List RedisStep → List Payload → DrainWorld → DrainWorld
  | _, [], w => w
  | steps, p :: rest, w =>
      let arrived := w.arrive (steps.headD {}).arrived
      requeue steps.tail rest
        (if (steps.headD {}).ok then { arrived with queue := arrived.queue ++ [p] } else arrived)

/-- What a batch has done. -/
structure BatchRun where
  popped : List Payload
  reports : List RowReport
  acknowledged : Bool
  after : DrainWorld

/-- `drain_heartbeat_batch` -/
def drainBatch (o : DrainOutcome) (w : DrainWorld) : BatchRun :=
  let popped := popBatch kHeartbeatBatchSize o.pops w
  if popped.1 = [] then ⟨[], [], true, popped.2⟩
  else
    let rows := drainRows o.rows popped.1 (popped.2.session.begins o.begins)
    let commit := rows.2.commit o.commits
    let after := { popped.2 with session := commit.2 }
    ⟨popped.1, rows.1, commit.1, if commit.1 then after else requeue o.pushes popped.1 after⟩

/-! ### The whole call -/

/-- A batch of a call: what it met, and the world before it. -/
structure Batch where
  outcome : DrainOutcome
  before : DrainWorld

def Batch.run (b : Batch) : BatchRun := drainBatch b.outcome b.before

/-- The loop over the batches. -/
def drainBatches : Nat → List DrainOutcome → DrainWorld → List Batch × DrainWorld
  | 0, _, w => ([], w)
  | n + 1, outcomes, w =>
      let batch : Batch := ⟨outcomes.headD {}, w⟩
      -- an empty batch and one that is not full are the last
      if batch.run.popped.length < kHeartbeatBatchSize then ([batch], batch.run.after)
      else
        let later := drainBatches n outcomes.tail batch.run.after
        (batch :: later.1, later.2)

/-- `drain_heartbeats_once`; `reached` says whether it has its connections. -/
def drainHeartbeatsOnce (reached : Bool) (outcomes : List DrainOutcome) (w : DrainWorld) :
    List Batch × DrainWorld :=
  if reached then drainBatches kHeartbeatMaxBatches outcomes w else ([], w)

/-- A queue of any content, before anything of it has been recorded. -/
def DrainWorld.start (texts : List Bytes) (logs : List AccessRow) (submissions : SubmissionTable) :
    DrainWorld :=
  ⟨ticketed 0 texts, texts.length, ⟨⟨logs, submissions, []⟩, none⟩⟩

end ExamVan.Presence
