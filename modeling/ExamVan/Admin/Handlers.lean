import ExamVan.Helpers.IsoUtc
import ExamVan.Http.Router
import ExamVan.Lib.Transition
import ExamVan.Queue.Job
import ExamVan.Services.ExamToken
import ExamVan.Store.Memory

/-!
# Handlers that give out tokens

Any number of requests run at once on one memory store. A handler is between two of its store
operations; a move performs the next one, and what the handler computes up to the one after it.
`create_exam`, `edit-token` and `regenerate-token` claim a token first and release it, or the one it
replaces, last. `exam_by_token` rotates the active token of a dynamic exam without a claim.
-/

namespace ExamVan.Admin

open ByteString Models ExamToken Store Http Queue

/-! ### Requests -/

/-- What `create_exam` has read and checked when it comes to the token. -/
structure CreateForm where
  name : Bytes
  filePath : Bytes
  size : Int64 := 0
  /-- `!file_data.empty()` -/
  hasFile : Bool := false
  createdBy : Int32 := 0
  deriving DecidableEq

/-- The actions of `update_exam` that are one `update` of the store. -/
inductive Change
  | toggle
  | start
  | stop
  | tokenMode (mode : Bytes) (resetInterval : Option Int32)
  deriving DecidableEq

/-- A request, with the fields of its body and its `id` parameter as text. -/
inductive Request
  | create (form : CreateForm) (customToken : Bytes)
  | editToken (idText token : Bytes)
  | regenerateToken (idText : Bytes)
  | tokenMode (idText mode : Bytes) (resetInterval : Option Int32)
  | toggle (idText : Bytes)
  | start (idText : Bytes)
  | stop (idText : Bytes)
  | delete (idText : Bytes)
  | bulkDelete (ids : List Int32)
  | examByToken (token : Bytes)

/-- `parse_iso_utc` and `format_iso_utc`, on the ticks of `system_clock`. -/
structure Clock where
  parse : Bytes → Option Int
  format : Int → Bytes

def second : Int := 1000000000

/-- R2 as a handler meets it: its configuration, whether the upload is verified, and
`EXAMVAN_R2_STRICT=0`. -/
structure R2Outcome where
  enabled : Bool := true
  uploaded : Bool := true
  nonStrict : Bool := false

/-- How the rotation's transaction ends: no database was reached or it failed, another process has
rotated already, or it is committed. -/
inductive PgRotation
  | none
  | fresh (activeToken lastResetAt : Bytes)
  | rotated

/-- What a handler meets between two store operations. -/
structure Surroundings where
  now : Int := 0
  random : Fin 8 → UInt8 := fun _ => 0
  r2 : R2Outcome := {}
  /-- `exam_bulk_scope_ok` -/
  inScope : Bool := true
  pg : PgRotation := .none

/-! ### Replies -/

/-- What a handler answers; for the 200 of `exam_by_token`, the exam that it describes. -/
inductive Reply
  | response (r : Response)
  | opened (e : Exam)
  deriving DecidableEq

def createdReply (form : CreateForm) (id : Int32) (token createdAt : Bytes) : Response :=
  ⟨201, str "\x7b\"success\":true,\"id\":" ++ intText id.toInt ++ str ",\"token\":" ++ quoted token ++
    str ",\"name\":" ++ quoted form.name ++ str ",\"file_path\":" ++ quoted form.filePath ++
    str ",\"status\":\"inactive\",\"size_bytes\":" ++ intText form.size.toInt ++
    str ",\"created_at\":\"" ++ createdAt ++ str "\",\"message\":\"Ujian berhasil diunggah\"\x7d"⟩

/-- The 200 of an action on one exam. -/
def okReply (idText middle message : Bytes) : Response :=
  ⟨200, str "\x7b\"success\":true,\"ok\":true,\"id\":" ++ idText ++ middle ++ str ",\"message\":\"" ++
    message ++ str "\"\x7d"⟩

def tokenReply (idText token message : Bytes) : Response :=
  okReply idText (str ",\"token\":" ++ quoted token) message

def bulkDeleteReply (deleted : Nat) : Response :=
  ⟨200, str "\x7b\"success\":true,\"ok\":true,\"deleted\":" ++ natText deleted ++ str ",\"message\":\"" ++
    natText deleted ++ str " ujian dihapus\"\x7d"⟩

def notFound : Response := failure 404 (str "exam not found")

def tokenNotFound : Response := plainError 404 (str "token not found")

def customTokenInUse : Response :=
  codedError 409 (str "custom_token already in use") (str "DUPLICATE_TOKEN")

def r2NotConfigured : Bytes := str "Cloudflare R2 tidak dikonfigurasi."

/-! ### Changes of an exam -/

def started (e : Exam) : Bool := (e.examStartedAt.getD []) ≠ []

/-- The mutator of each action. A second `start` changes nothing. -/
def Change.apply (now : Bytes) : Change → Exam → Exam
  | .toggle, e =>
      if e.isActive then { e with status := str "inactive" }
      else { e with status := str "active", tombstonedAt := none }
  | .start, e =>
      if started e then e
      else
        { e with
          status := str "active"
          examStartedAt := some now
          tokenLastResetAt := some now
          tombstonedAt := none
          activeToken := e.token }
  | .stop, e => { e with status := str "inactive", examStartedAt := none }
  | .tokenMode mode resetInterval, e =>
      if mode = str "static" then
        { e with tokenMode := some mode, tokenResetInterval := none, tokenLastResetAt := none }
      else { e with tokenMode := some mode, tokenResetInterval := resetInterval }

def statusReply (idText status : Bytes) : Response :=
  okReply idText (str ",\"status\":\"" ++ status ++ str "\",\"new_status\":\"" ++ status ++ str "\"")
    (str "Status diperbarui")

/-- The reply to an action on the exam that `update` found. -/
def Change.reply (idText : Bytes) (e : Exam) : Change → Response
  | .toggle => statusReply idText (if e.isActive then str "inactive" else str "active")
  | .start => if started e then failure 400 (str "Ujian sudah dimulai")
      else statusReply idText (str "active")
  | .stop => statusReply idText (str "inactive")
  | .tokenMode mode _ => okReply idText (str ",\"token_mode\":" ++ quoted mode)
      (str "Mode token berhasil diperbarui")

/-- `edit-token` and `regenerate-token` replace both tokens. -/
def retoken (token : Bytes) (e : Exam) : Exam := { e with token := token, activeToken := token }

/-- The interval of a dynamic exam has passed since `reference`. -/
def intervalOver (clock : Clock) (now : Int) (e : Exam) (reference : Bytes) : Bool :=
  match e.tokenResetInterval, clock.parse reference with
  | some interval, some resetAt =>
      e.getTokenMode = str "dynamic" ∧ 0 < interval ∧ Helpers.addMinutes resetAt interval ≤ now
  | _, _ => false

/-- The test on the copy that `exam_by_token` has matched. -/
def rotationDue (clock : Clock) (now : Int) (e : Exam) : Bool :=
  match e.examStartedAt with
  | none => false
  | some startedAt => startedAt ≠ [] ∧ intervalOver clock now e (e.tokenLastResetAt.getD startedAt)

/-- The same test on the stored exam, under the store's lock. -/
def rotationStillDue (clock : Clock) (now : Int) (e : Exam) : Bool :=
  e.examStartedAt.isSome ∧
    intervalOver clock now e (e.tokenLastResetAt.getD (e.examStartedAt.getD []))

def rotate (token now : Bytes) (e : Exam) : Exam :=
  { e with activeToken := token, tokenLastResetAt := some now }

/-- The exam that `create_exam` adds. -/
def newExam (form : CreateForm) (id : Int32) (token createdAt : Bytes) : Exam :=
  { id := id
    name := form.name
    filePath := form.filePath
    sizeBytes := form.size
    token := token
    activeToken := token
    status := str "inactive"
    createdBy := form.createdBy
    securityLevel := str "medium"
    createdAt := createdAt }

/-! ### Handlers -/

/-- A handler before its next store operation. `triesLeft` counts the attempts after the next. -/
inductive Handler
  | createClaim (form : CreateForm) (token : Token)
  | createDraw (form : CreateForm) (triesLeft : Nat)
  | createTakeId (form : CreateForm) (token : Token)
  | createAdd (form : CreateForm) (id : Int32) (token : Token) (createdAt : Bytes)
  | editClaim (idText : Bytes) (id : Int32) (token : Token)
  | editUpdate (idText : Bytes) (id : Int32) (token : Token)
  | regenerateDraw (idText : Bytes) (id : Int32) (triesLeft : Nat)
  | regenerateUpdate (idText : Bytes) (id : Int32) (token : Token)
  | changing (idText : Bytes) (id : Int32) (change : Change)
  | deleteLook (id : Int32) (idText : Bytes)
  | deleteRemove (id : Int32) (idText : Bytes)
  | bulkLook (id : Int32) (rest : List Int32) (deleted : Nat)
  | bulkRemove (id : Int32) (rest : List Int32) (deleted : Nat)
  | joinLook (token : Bytes)
  | joinSync (exam : Exam) (token : Token) (now : Int)
  | joinRotate (exam : Exam) (token : Token) (now : Int)
  /-- the last operation releases a token -/
  | releasing (token : Bytes) (reply : Response)
  deriving DecidableEq

inductive Progress
  | next (h : Handler)
  | done (r : Reply)

def Progress.respond (r : Response) : Progress := .done (.response r)

/-- The tests on the `id` parameter. -/
def withId (idText : Bytes) (k : Int32 → Progress) : Progress :=
  if idText = [] then .respond (plainError 400 (str "exam id required"))
  else match stoi idText with
    | none => .respond (plainError 400 (str "invalid exam id"))
    | some id => k id

def toLower (c : UInt8) : UInt8 := if chr 'A' ≤ c ∧ c ≤ chr 'Z' then c + 32 else c

/-- The tests of `edit-token` after its trim. -/
def beginEdit (idText : Bytes) (id : Int32) (raw : Bytes) : Progress :=
  if trim raw = [] then .respond (failure 400 (str "token not allowed to be empty"))
  else match chosenToken (trim raw) with
    | none => .respond (failure 400 (str "token must be 8 A-Z0-9"))
    | some token => .next (.editClaim idText id token)

def beginTokenMode (idText : Bytes) (id : Int32) (raw : Bytes) (resetInterval : Option Int32) :
    Progress :=
  let mode := raw.map toLower
  if mode ≠ str "static" ∧ mode ≠ str "dynamic" then
    .respond (failure 400 (str "invalid token mode"))
  else if mode = str "dynamic" ∧ !(resetInterval.any fun interval => 1 ≤ interval) then
    .respond (failure 400 (str "reset_interval required (minimal 1 menit)"))
  else .next (.changing idText id (.tokenMode mode resetInterval))

/-- The loop of `bulk_delete_exams`. -/
def bulkNext (deleted : Nat) : List Int32 → Progress
  | [] => .respond (bulkDeleteReply deleted)
  | id :: rest => .next (.bulkLook id rest deleted)

/-- A handler up to its first store operation. -/
def Request.begin (io : Surroundings) : Request → Progress
  | .create form customToken =>
      if customToken = [] then .next (.createDraw form 4)
      else match chosenToken customToken with
        | none => .respond (plainError 400 (str "custom_token must be 8 A-Z0-9"))
        | some token => .next (.createClaim form token)
  | .editToken idText token => withId idText fun id => beginEdit idText id token
  | .regenerateToken idText => withId idText fun id => .next (.regenerateDraw idText id 4)
  | .tokenMode idText mode resetInterval =>
      withId idText fun id => beginTokenMode idText id mode resetInterval
  | .toggle idText => withId idText fun id => .next (.changing idText id .toggle)
  | .start idText => withId idText fun id => .next (.changing idText id .start)
  | .stop idText => withId idText fun id => .next (.changing idText id .stop)
  | .delete idText => withId idText fun id => .next (.deleteLook id idText)
  | .bulkDelete ids =>
      if ids = [] then .respond (failure 400 (str "ids must be a non-empty array of numbers"))
      else if !io.r2.enabled then
        .respond (codedFailure 503 r2NotConfigured (str "R2_NOT_CONFIGURED"))
      else bulkNext 0 ids
  | .examByToken token =>
      if isValidExamToken token then .next (.joinLook token) else .respond tokenNotFound

/-- Where the upload of a file refuses the exam. -/
def uploadRefusal (form : CreateForm) (r2 : R2Outcome) : Option Response :=
  if !form.hasFile then none
  else if !r2.enabled then some (codedError 503 r2NotConfigured (str "R2_NOT_CONFIGURED"))
  else if r2.uploaded || r2.nonStrict then none
  else some (codedError 502 (str "Gagal mengupload file ke Cloudflare R2") (str "UPLOAD_FAILED"))

/-- `exam_schedule_ended`. -/
def scheduleEnded (clock : Clock) (now : Int) (e : Exam) : Bool :=
  match e.endTime with
  | none => false
  | some text => text ≠ [] ∧ (clock.parse text).any fun t => t + 60 * second < now

/-- `exam_by_token` after the rotation. -/
def joinReply (clock : Clock) (now : Int) (e : Exam) : Progress :=
  if !e.isActive || !started e then
    .respond ⟨403, str "\x7b\"success\":false,\"error\":\"exam not started\"," ++
      str "\"message\":\"Ujian belum dimulai\"\x7d"⟩
  else if scheduleEnded clock now e then .respond (failure 403 (str "Waktu ujian telah berakhir"))
  else .done (.opened e)

/-- `exam_by_token` on the copy of the exam that it has matched. -/
def joinMatched (clock : Clock) (io : Surroundings) (e : Exam) : Progress :=
  if rotationDue clock io.now e then
    match io.pg with
    | .rotated => .next (.joinSync e (drawToken io.random) io.now)
    | .fresh activeToken lastResetAt =>
        joinReply clock io.now
          (if activeToken = [] then e
          else { e with activeToken := activeToken, tokenLastResetAt := some lastResetAt })
    | .none => .next (.joinRotate e (drawToken io.random) io.now)
  else joinReply clock io.now e

/-- The exam that a token is resolved to. -/
def lookup (exams : List Exam) (token : Bytes) : Option Exam :=
  exams.find? fun e => matchesToken e token

/-- `edit-token` and `regenerate-token` after their `update`. -/
def afterRetoken (token : Bytes) (reply : Response) : Option Exam → Progress
  | none => .next (.releasing token notFound)
  | some old => if old.token = [] then .respond reply else .next (.releasing old.token reply)

/-- One store operation of a handler, and what follows it. -/
def Handler.move (clock : Clock) (io : Surroundings) (s : MemoryStore) :
    Handler → Progress × MemoryStore
  | .createClaim form token =>
      let r := s.claimToken token.text
      (if r.1 then .next (.createTakeId form token) else .respond customTokenInUse, r.2)
  | .createDraw form triesLeft =>
      let token := drawToken io.random
      let r := s.claimToken token.text
      (if r.1 then .next (.createTakeId form token)
        else match triesLeft with
        | 0 => .respond (codedError 409 (str "token generation failed after retries")
            (str "TOKEN_COLLISION"))
        | triesLeft + 1 => .next (.createDraw form triesLeft), r.2)
  | .createTakeId form token =>
      let r := s.takeId
      (match uploadRefusal form io.r2 with
        | some refusal => .next (.releasing token.text refusal)
        | none => .next (.createAdd form r.1 token (clock.format io.now)), r.2)
  | .createAdd form id token createdAt =>
      let r := s.add (newExam form id token.text createdAt)
      (if r.1 then .respond (createdReply form id token.text createdAt)
        else .next (.releasing token.text customTokenInUse), r.2)
  | .editClaim idText id token =>
      let r := s.claimTokenIfAbsent token.text id
      (if r.1 then .next (.editUpdate idText id token)
        else .respond (codedFailure 409 (str "token already in use") (str "DUPLICATE_TOKEN")), r.2)
  | .editUpdate idText id token =>
      let r := s.update id fun e =>
        { retoken token.text e with tokenLastResetAt := some (clock.format io.now) }
      (afterRetoken token.text
        (tokenReply idText token.text (str "Token ujian berhasil diubah")) r.1, r.2)
  | .regenerateDraw idText id triesLeft =>
      let token := drawToken io.random
      let r := s.claimToken token.text
      (if r.1 then .next (.regenerateUpdate idText id token)
        else match triesLeft with
        | 0 => .respond (codedFailure 500 (str "token generation failed after retries")
            (str "TOKEN_COLLISION"))
        | triesLeft + 1 => .next (.regenerateDraw idText id triesLeft), r.2)
  | .regenerateUpdate idText id token =>
      let r := s.update id (retoken token.text)
      (afterRetoken token.text
        (tokenReply idText token.text (str "Token berhasil dibuat ulang")) r.1, r.2)
  | .changing idText id change =>
      let r := s.update id (change.apply (clock.format io.now))
      (.respond (match r.1 with
        | none => notFound
        | some e => change.reply idText e), r.2)
  | .deleteLook id idText =>
      (if (s.getById id).isNone then .respond notFound
        else if !io.r2.enabled then
          .respond (codedFailure 503 r2NotConfigured (str "R2_NOT_CONFIGURED"))
        else .next (.deleteRemove id idText), s)
  | .deleteRemove id idText =>
      let r := s.remove id
      (.respond (if r.1 then okReply idText [] (str "Ujian dihapus") else notFound), r.2)
  | .bulkLook id rest deleted =>
      (if (s.getById id).isSome && io.inScope then .next (.bulkRemove id rest deleted)
        else bulkNext deleted rest, s)
  | .bulkRemove id rest deleted =>
      let r := s.remove id
      (bulkNext (if r.1 then deleted + 1 else deleted) rest, r.2)
  | .joinLook token =>
      (match lookup s.exams token with
        | none => .respond tokenNotFound
        | some e => joinMatched clock io e, s)
  | .joinSync exam token now =>
      let r := s.update exam.id (rotate token.text (clock.format now))
      (joinReply clock now (rotate token.text (clock.format now) exam), r.2)
  | .joinRotate exam token now =>
      let rotated := rotate token.text (clock.format now)
      let r := s.update exam.id fun e => if rotationStillDue clock now e then rotated e else e
      (joinReply clock now (if r.1.any (rotationStillDue clock now) then rotated exam else exam), r.2)
  | .releasing token reply => (.respond reply, s.unclaimToken token)

/-! ### The system -/

structure State where
  store : MemoryStore
  running : Multiset Handler
  replies : List Reply

def State.proceed (s : State) (others : Multiset Handler) (r : Progress × MemoryStore) : State :=
  match r.1 with
  | .next h => { s with store := r.2, running := h ::ₘ others }
  | .done reply => { store := r.2, running := others, replies := s.replies ++ [reply] }

inductive Action
  | arrive (request : Request) (io : Surroundings)
  | move (h : Handler) (io : Surroundings)

def step? (clock : Clock) (s : State) : Action → Option State
  | .arrive request io => some (s.proceed s.running (request.begin io, s.store))
  | .move h io =>
      if h ∈ s.running then some (s.proceed (s.running.erase h) (h.move clock io s.store)) else none

/-- Requests on an empty store. -/
def handlers (clock : Clock) : System State Action where
  initial := ⟨.empty, 0, []⟩
  step? := step? clock

end ExamVan.Admin
