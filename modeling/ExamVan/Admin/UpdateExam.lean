import ExamVan.Admin.ExamOps
import ExamVan.Admin.Handlers
import ExamVan.Admin.Upload

/-!
# Changing an exam

`update_exam` serves eight routes. The exam is named by a parameter of the path and the action by
the path's text. An edit writes the name and, with a new file, the file's name and size, uploads the
file, and writes the old file's name and size back if the upload fails.
-/

namespace ExamVan.Admin

open ByteString Queue Models Api ExamToken

/-- What a handler reads besides its request and the answers of its operations. -/
structure HandlerEnv where
  /-- `format_iso_utc(now())` -/
  now : Bytes := []
  r2Enabled : Bool := true
  /-- `EXAMVAN_R2_STRICT=0` -/
  nonStrict : Bool := false
  /-- a `DATABASE_URL` is set -/
  databaseConfigured : Bool := true
  /-- the draws of `gen_token` -/
  genToken : Nat → Bytes := fun _ => []

/-- `get_param`. -/
def getParam (form : StringMap) (key : Bytes) : Bytes := (form.find? key).getD []

/-- `get_exam_id`. -/
def getExamId (req : Http.Request) : Bytes :=
  match req.params.find? (str "id") with
  | some id => id
  | none => getParam req.params (str "exam_id")

/-- The tests on the id that most handlers begin with. -/
def withExamId (req : Http.Request) (k : Bytes → Int32 → HandlerProg) : HandlerProg :=
  let idStr := getExamId req
  if idStr = [] then respond (Http.plainError 400 (str "exam id required"))
  else
    match stoi idStr with
    | none => respond (Http.plainError 400 (str "invalid exam id"))
    | some id => k idStr id

/-! ### The action -/

/-- The action that the path names; the last test is for `/edit`, so `/edit-token` comes before. -/
def pathAction (path : Bytes) : Bytes :=
  let names := [str "toggle", str "start", str "stop", str "regenerate-token", str "edit-token",
    str "token-mode", str "edit"]
  (names.find? fun name => (findSub (str "/" ++ name) path).isSome).getD []

def actionOf (req : Http.Request) : Bytes :=
  let action := getParam req.params (str "action")
  if action = [] then pathAction req.path else action

/-- `json_int_field`. -/
def jsonIntField (body key : Bytes) : Option Int32 :=
  match findSub (needle key) body with
  | none => none
  | some t =>
      match findByte (· = chr ':') (t.drop (needle key).length) with
      | none => none
      | some u => stoi (u.tail.dropWhile isBlank)

/-- `token`, `reset_interval` and `token_mode`, from a JSON body or a form. -/
structure TokenFields where
  token : Bytes
  resetInterval : Option Int32
  tokenMode : Bytes

def tokenFields (req : Http.Request) : TokenFields :=
  if (findSub (str "application/json") (getParam req.headers (str "Content-Type"))).isSome then
    ⟨jsonStringField req.body (str "token"), jsonIntField req.body (str "reset_interval"),
      jsonStringField req.body (str "token_mode")⟩
  else
    let form := parseForm req.body
    ⟨getParam form (str "token"), (form.find? (str "reset_interval")).bind stoi,
      getParam form (str "token_mode")⟩

/-! ### Tokens -/

def editToken (env : HandlerEnv) (idStr : Bytes) (id : Int32) (raw : Bytes) : HandlerProg :=
  if trim raw = [] then respond (Http.failure 400 (str "token not allowed to be empty"))
  else
    match chosenToken (trim raw) with
    | none => respond (Http.failure 400 (str "token must be 8 A-Z0-9"))
    | some t => do
        if !(← Exams.claimTokenIfAbsent t.text id) then
          return .response (Http.codedFailure 409 (str "token already in use")
            (str "DUPLICATE_TOKEN"))
        match ← Exams.update id fun e =>
            { e with token := t.text, activeToken := t.text, tokenLastResetAt := some env.now } with
        | none => do
            Exams.unclaimToken t.text
            return .response notFound
        | some old => do
            if old.token ≠ [] then Exams.unclaimToken old.token
            return .response (tokenReply idStr t.text (str "Token ujian berhasil diubah"))

def setTokenMode (idStr : Bytes) (id : Int32) (raw : Bytes) (resetInterval : Option Int32) :
    HandlerProg :=
  let mode := raw.map tolower
  if mode ≠ str "static" ∧ mode ≠ str "dynamic" then
    respond (Http.failure 400 (str "invalid token mode"))
  else if mode = str "dynamic" ∧ !(resetInterval.any fun interval => 1 ≤ interval) then
    respond (Http.failure 400 (str "reset_interval required (minimal 1 menit)"))
  else do
    let change := Change.tokenMode mode resetInterval
    match ← Exams.update id (change.apply []) with
    | none => return .response notFound
    | some old => return .response (change.reply idStr old)

/-- The draws of `regenerate-token`: the first token that can be claimed. -/
def claimDrawn (env : HandlerEnv) : Nat → Nat → Prog Op Ans (Option Bytes)
  | 0, _ => .done none
  | tries + 1, draw => do
      if ← Exams.claimToken (env.genToken draw) then return some (env.genToken draw)
      claimDrawn env tries (draw + 1)

def regenerateToken (env : HandlerEnv) (idStr : Bytes) (id : Int32) : HandlerProg := do
  match ← claimDrawn env 5 0 with
  | none =>
      return .response (Http.codedFailure 500 (str "token generation failed after retries")
        (str "TOKEN_COLLISION"))
  | some token =>
      match ← Exams.update id (retoken token) with
      | none => do
          Exams.unclaimToken token
          return .response notFound
      | some old => do
          if old.token ≠ [] then Exams.unclaimToken old.token
          return .response (tokenReply idStr token (str "Token berhasil dibuat ulang"))

/-- `toggle`, `start` and `stop`. -/
def changeExam (env : HandlerEnv) (idStr : Bytes) (id : Int32) (change : Change) : HandlerProg := do
  match ← Exams.update id (change.apply env.now) with
  | none => return .response notFound
  | some old => return .response (change.reply idStr old)

/-! ### Edits -/

/-- The name and the new file of an edit, before and after their checks. -/
structure EditForm where
  name : Bytes
  pdfName : Bytes := []
  pdfData : Bytes := []
  deriving DecidableEq

def contentType (req : Http.Request) : Bytes :=
  ((req.headers.entries.find? fun kv => kv.1.map tolower = str "content-type").map Prod.snd).getD []

/-- The fields of an edit, from a multipart body, a parameter or a form. -/
def readEdit (req : Http.Request) : EditForm :=
  let ct := contentType req
  if (findSub (str "multipart/form-data") ct).isSome then
    let form := parseMultipart req.body ct
    ⟨getParam form.fields (str "name"), form.fileName, form.fileData⟩
  else
    let name := getParam req.params (str "name")
    ⟨if name = [] then getParam (parseForm req.body) (str "name") else name, [], []⟩

def maxPdf : Nat := 5 * 1024 * 1024

/-- The checks of an edit before its first write. -/
def checkEdit (env : HandlerEnv) (form : EditForm) : Except Http.Response EditForm :=
  let name := sanitizeStudentInput form.name
  if form.name = [] then .error (Http.plainError 400 (str "edit requires name field"))
  else if name = [] then .error (Http.plainError 400 (str "name required"))
  else if name.any (· = 0) then
    .error (Http.plainError 400 (str "name contains invalid characters"))
  else if 255 < name.length then .error (Http.plainError 400 (str "name too long"))
  else if form.pdfData = [] then .ok { form with name := name }
  else if !validatePdfContent form.pdfData then
    .error (Http.plainError 400 (str "file must be valid PDF"))
  else if maxPdf < form.pdfData.length then
    .error (Http.plainError 413 (str "file too large, max 5MB"))
  else if sanitizeFilename form.pdfName = [] then
    .error (Http.plainError 400 (str "invalid PDF filename"))
  else if !env.r2Enabled then
    .error (Http.codedError 503 r2NotConfigured (str "R2_NOT_CONFIGURED"))
  else .ok { form with name := name, pdfName := sanitizeFilename form.pdfName }

/-- The mutator of an edit. -/
def EditForm.apply (form : EditForm) (e : Exam) : Exam :=
  if form.pdfData = [] then { e with name := form.name }
  else
    { e with
      name := form.name
      filePath := form.pdfName
      sizeBytes := Int64.ofNat form.pdfData.length }

/-- The mutator of the rollback: the old file's name and size. -/
def restoreFile (old e : Exam) : Exam :=
  { e with filePath := old.filePath, sizeBytes := old.sizeBytes }

def editReply (idStr name : Bytes) : Http.Response :=
  okReply idStr (str ",\"name\":" ++ quoted name) (str "Nama diperbarui")

def uploadFailed : Http.Response :=
  Http.codedError 502 (str "Gagal mengupload file ke Cloudflare R2") (str "UPLOAD_FAILED")

def editExam (env : HandlerEnv) (idStr : Bytes) (id : Int32) (form : EditForm) : HandlerProg := do
  match ← Exams.update id form.apply with
  | none => return .response notFound
  | some old =>
      if form.pdfData ≠ [] then
        let uploaded ← uploadFile id form.pdfName form.pdfData
        if !(uploaded || env.nonStrict) then
          let _ ← Exams.update id (restoreFile old)
          return .response uploadFailed
      return .response (editReply idStr form.name)

/-! ### The handler -/

def updateExam (env : HandlerEnv) (req : Http.Request) : HandlerProg :=
  withExamId req fun idStr id =>
    let action := actionOf req
    let fields := tokenFields req
    if action = str "edit-token" then editToken env idStr id fields.token
    else if action = str "token-mode" then
      setTokenMode idStr id fields.tokenMode fields.resetInterval
    else if action = str "regenerate-token" then regenerateToken env idStr id
    else if action = str "toggle" then changeExam env idStr id .toggle
    else if action = str "start" then changeExam env idStr id .start
    else if action = str "stop" then changeExam env idStr id .stop
    else if action = str "edit" then
      match checkEdit env (readEdit req) with
      | .error r => respond r
      | .ok form => editExam env idStr id form
    else respond (Http.plainError 400 (str "unknown action: " ++ jsonEscape action))

end ExamVan.Admin
