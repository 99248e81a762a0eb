import ExamVan.Admin.UpdateExam
import ExamVan.Http.Identity

/-!
# The other handlers of one exam

The handlers that the guard's scopes `exam` and `exam_access` let through, apart from `update_exam`.
Those of the first scope turn the id into a number, as the guard does. Those of the second one pass
the text of the parameter on to the database.
-/

namespace ExamVan.Admin

open ByteString Queue Models Api

/-! ### Deleting -/

def deleteExam (env : HandlerEnv) (req : Http.Request) : HandlerProg :=
  withExamId req fun idStr id => do
    match ← Exams.getById id with
    | none => return .response notFound
    | some _ =>
        if !env.r2Enabled then
          return .response (Http.codedFailure 503 r2NotConfigured (str "R2_NOT_CONFIGURED"))
        if !(← Exams.remove id) then return .response notFound
        return .response (okReply idStr [] (str "Ujian dihapus"))

/-! ### Questions -/

/-- `query_pengawas_json`, without the database an empty list. -/
def queryPengawas (s : ExamStatement) (id : Int32) : Prog Op Ans Rows := do
  if !(← Pg.acquire) then return []
  return (← Pg.exam s (intText id.toInt) []).getD []

def getExamQuestions (_env : HandlerEnv) (req : Http.Request) : HandlerProg :=
  withExamId req fun _ id => do
    match ← Exams.getById id with
    | none => return .response notFound
    | some e =>
        let assigned ← queryPengawas .assignedPengawas id
        let available ← queryPengawas .availablePengawas id
        return .questions e assigned available

/-- `parse_int_array`, behind the opening bracket. -/
def parseInts : Nat → Bytes → Option (List Int32)
  | 0, _ => some []
  | fuel + 1, s =>
      match s.dropWhile fun c => isBlank c || c = chr ',' with
      | [] => some []
      | c :: t =>
          if c = chr ']' then some []
          else if !isDigit c then none
          else
            match stoi ((c :: t).takeWhile isDigit) with
            | none => none
            | some n => (parseInts fuel ((c :: t).dropWhile isDigit)).map (n :: ·)

/-- `parse_int_array`. -/
def parseIntArray (raw : Bytes) : Option (List Int32) :=
  match raw.dropWhile isBlank with
  | [] => none
  | c :: t => if c = chr '[' then parseInts raw.length t else none

/-- The mutator of `save_exam_questions`, as far as the fields of the body decide it. -/
structure QuestionsForm where
  questions : Bytes
  identity : Bytes
  securityLevel : Bytes
  strict : Option Bool
  panelColor : Bytes
  startTime : Option Bytes
  endTime : Option Bytes
  congrats : Bytes

def optional (text : Bytes) : Option Bytes := if text = [] then none else some text

def QuestionsForm.apply (form : QuestionsForm) (e : Exam) : Exam :=
  { e with
    questionsJson := if form.questions = [] then e.questionsJson else some form.questions
    identityFields := if form.identity = [] then e.identityFields else some form.identity
    securityLevel := if form.securityLevel = [] then e.securityLevel else form.securityLevel
    strictMode :=
      if form.securityLevel ≠ [] then (if form.securityLevel = str "high" then 1 else 0)
      else match form.strict with
        | none => e.strictMode
        | some strict => if strict then 1 else 0
    panelColor := optional form.panelColor
    startTime := form.startTime
    endTime := form.endTime
    congratsMessage := optional form.congrats }

def insertPengawas (id : Int32) : List Int32 → Prog Op Ans Bool
  | [] => .done true
  | user :: rest => do
      match ← Pg.exam .insertPengawas (intText id.toInt) [intText user.toInt] with
      | none => return false
      | some _ => insertPengawas id rest

/-- The statements between `BEGIN` and the end of the transaction: whether all of them succeed. -/
def replacePengawas (id : Int32) (ids : List Int32) : Prog Op Ans Bool := do
  if (← Pg.other .begin []).isNone then return false
  let valid ← Pg.exam .countValidPengawas (intText id.toInt) (ids.map fun n => intText n.toInt)
  let count := ((valid.bind List.head?).bind List.head?).bind strtol
  if count ≠ some (ids.length : Int) then return false
  if (← Pg.exam .deletePengawas (intText id.toInt) []).isNone then return false
  insertPengawas id ids

/-- The rows of `exam_pengawas` are replaced in one transaction; a failure is only logged. -/
def savePengawas (id : Int32) (ids : List Int32) : Prog Op Ans Unit := do
  if !(← Pg.acquire) then return
  let ok ← replacePengawas id ids
  let _ ← Pg.other (if ok then .commit else .rollback) []
  return

def savePengawas? (id : Int32) : Option (List Int32) → Prog Op Ans Unit
  | none => .done ()
  | some ids => savePengawas id ids

/-- `read` is what the handler takes from the body: a refusal, or the fields and the new supervisors. -/
def saveExamQuestions (read : Bytes → Except Http.Response (QuestionsForm × Option (List Int32)))
    (_env : HandlerEnv) (req : Http.Request) : HandlerProg :=
  withExamId req fun _ id => do
    match ← Exams.getById id with
    | none => return .response notFound
    | some _ =>
        match read req.body with
        | .error r => return .response r
        | .ok (form, pengawas) =>
            if (← Exams.update id form.apply).isNone then return .response notFound
            savePengawas? id pengawas
            return .response ⟨200, str ("\x7b\"success\":true,\"ok\":true," ++
                  "\"message\":\"Konfigurasi soal berhasil disimpan\"\x7d")⟩

/-! ### Delegating -/

def databaseUnavailable : Http.Response := Http.failure 503 (str "Database tidak tersedia")

/-- How the transaction of `delegate_exam` ends. -/
inductive Delegated
  | ok
  | failed
  | guruInvalid
  | pengawasInvalid (id : Int32)

/-- An active user with the role, in the institution of the caller. -/
def validUser (role : Bytes) (id uid : Int32) : Prog Op Ans Bool := do
  match (← Pg.other .roleOf [intText id.toInt]).bind List.head? with
  | none => return false
  | some row =>
      let caller ← Pg.other .instansi [intText uid.toInt]
      let opinst := ((caller.bind List.head?).bind List.head?).getD []
      return row.head? = some opinst && row[2]? = some (str "active") &&
        (row[1]?.any fun roles => (findSub role roles).isSome)

/-- The checks of the supervisors; the first one that fails ends them. -/
def firstInvalid (uid : Int32) : List Int32 → Prog Op Ans (Option Int32)
  | [] => .done none
  | id :: rest => do
      if ← validUser (str "pengawas") id uid then firstInvalid uid rest else return some id

def rollback (outcome : Delegated) : Prog Op Ans Delegated := do
  let _ ← Pg.other .rollback []
  return outcome

/-- The transaction after the new owner is written. -/
def delegatePengawas (id uid : Int32) : Option (List Int32) → Prog Op Ans Delegated
  | none => do
      return if (← Pg.other .commit []).isNone then .failed else .ok
  | some ids => do
      match ← firstInvalid uid ids with
      | some invalid => rollback (.pengawasInvalid invalid)
      | none =>
          if (← Pg.exam .deletePengawas (intText id.toInt) []).isNone then rollback .failed
          else if !(← insertPengawas id ids) then rollback .failed
          else return if (← Pg.other .commit []).isNone then .failed else .ok

/-- `UPDATE exams SET delegated_to=…`. -/
def writeOwner (id : Int32) : Option Int32 → Prog Op Ans (Option Rows)
  | none => Pg.exam .undelegate (intText id.toInt) []
  | some owner => Pg.exam .delegateTo (intText id.toInt) [intText owner.toInt]

def validGuru (uid : Int32) : Option Int32 → Prog Op Ans Bool
  | none => .done true
  | some owner => validUser (str "guru") owner uid

def delegateTransaction (id uid : Int32) (newOwner : Option Int32) (pengawas : Option (List Int32)) :
    Prog Op Ans Delegated := do
  if !(← Pg.acquire) then return .failed
  if !(← validGuru uid newOwner) then return .guruInvalid
  if (← Pg.other .begin []).isNone then return .failed
  if (← writeOwner id newOwner).isNone then rollback .failed
  else delegatePengawas id uid pengawas

/-- The end of `delegate_exam`: the new owner in the store as well. -/
def storeOwner (idStr : Bytes) (id : Int32) (newOwner : Option Int32) : HandlerProg := do
  match newOwner with
  | none => return .response (okReply idStr [] (str "Delegasi ujian berhasil disimpan"))
  | some owner =>
      let _ ← Exams.update id fun e => { e with delegatedTo := some owner }
      return .response (okReply idStr [] (str "Delegasi ujian berhasil disimpan"))

def delegateExam (env : HandlerEnv) (req : Http.Request) : HandlerProg :=
  withExamId req fun idStr id => do
    match ← Exams.getById id with
    | none => return .response notFound
    | some _ =>
        let pengawasRaw := jsonRawValue req.body (str "pengawas_ids")
        if pengawasRaw ≠ [] ∧ parseIntArray pengawasRaw = none then
          return .response (Http.failure 400 (str "pengawas_ids must be an array of numbers"))
        let pengawas := if pengawasRaw = [] then none else parseIntArray pengawasRaw
        let newOwner := (stoi (jsonRawValue req.body (str "new_owner_id"))).filter (0 < ·)
        match ← delegateTransaction id (Http.sessionAdminIdFrom req) newOwner pengawas with
        | .guruInvalid => return .response (Http.failure 400
            (str "User tujuan harus Guru aktif di instansi yang sama"))
        | .pengawasInvalid invalid => return .response (Http.failure 400
            (str "Pengawas tidak valid: id " ++ intText invalid.toInt ++
              str " harus Pengawas aktif di instansi yang sama"))
        | .failed =>
            if env.databaseConfigured then return .response databaseUnavailable
            storeOwner idStr id newOwner
        | .ok => storeOwner idStr id newOwner

def queryUsername : Option Int32 → Prog Op Ans (Option Rows)
  | none => .done none
  | some user => Pg.other .username [intText user.toInt]

def delegateData (_env : HandlerEnv) (req : Http.Request) : HandlerProg :=
  withExamId req fun _ id => do
    match ← Exams.getById id with
    | none => return .response notFound
    | some e =>
        let nothing := ExamReply.delegation none none none none none
        if !(← Pg.acquire) then return nothing
        let uid := Http.sessionAdminIdFrom req
        match (← Pg.other .instansi [intText uid.toInt]).bind List.head? with
        | none => return nothing
        | some row =>
            let inst := row.head?.getD []
            let owner ← Pg.other .username [intText e.createdBy.toInt]
            let delegated ← queryUsername e.delegatedTo
            let gurus ← Pg.other .gurus [inst, intText e.createdBy.toInt]
            let pengawas ← Pg.other .pengawas [inst]
            let assigned ← Pg.exam .assignedPengawasIds (intText id.toInt) []
            return .delegation owner delegated gurus pengawas assigned

/-! ### Exporting -/

/-- `export_exam_id_from`; 0 stands for all exams. -/
def exportExamId (req : Http.Request) : Int32 :=
  match stoi (getExamId req) with
  | some id => id
  | none => (stoi (getParam (parseForm req.query) (str "exam_id"))).getD 0

/-- The filter of `export_submissions_xlsx` for the exams that the caller owns. -/
def exportFilter (superAdmin : Bool) (allowed : List Int32) (requested : Int32) : ExportFilter :=
  let filter := if !superAdmin && 0 < requested && !allowed.contains requested then -1 else requested
  if filter < 0 then .nothing
  else if 0 < filter then .one filter
  else if superAdmin then .everything
  else if allowed = [] then .nothing
  else .some allowed

/-- The rows of an export; without the database there are none. -/
def exportRows (filter : ExportFilter) : HandlerProg := do
  if !(← Pg.acquire) then return .export []
  return .export ((← Pg.exportSubmissions filter).getD [])

/-- The exams that a caller may export. -/
def allowedIds (actorId : Int32) (exams : List Exam) : List Int32 :=
  (exams.filter fun e => e.createdBy = actorId || e.delegatedTo = some actorId).map Exam.id

def exportXlsx (_env : HandlerEnv) (req : Http.Request) : HandlerProg :=
  let actorId := ((req.headers.find? (str "X-Internal-Admin-Id")).bind stoi).getD 0
  let superAdmin := req.headers.find? (str "X-Internal-Admin-Super") = some (str "1")
  if superAdmin then exportRows (exportFilter true [] (exportExamId req))
  else do
    let exams ← Exams.listAll
    exportRows (exportFilter false (allowedIds actorId exams) (exportExamId req))

/-! ### Supervising -/

/-- The `exam_id` parameter, as the handlers of the supervisors pass it on. -/
def examIdParam (req : Http.Request) : Bytes := getParam req.params (str "exam_id")

def examIdRequired : Http.Response := Http.failure 400 (str "exam id required")

/-- `page`, with its default and its bounds. -/
def pageOf (q : StringMap) : Int :=
  min 1000000 (max 1 (((stoi (getParam q (str "page"))).map Int32.toInt).getD 1))

/-- A number of rows for a page: what is below 1 becomes the default. -/
def limitOf (q : StringMap) (name : Bytes) (default bound : Int) : Int :=
  let n := ((stoi (getParam q name)).map Int32.toInt).getD default
  if n < 1 then default else min bound n

def pengawasSubmissions (_env : HandlerEnv) (req : Http.Request) : HandlerProg :=
  let q := parseForm req.query
  let examId := if examIdParam req = [] then getParam q (str "exam_id") else examIdParam req
  if examId = [] then respond examIdRequired
  else do
    let page := pageOf q
    let perPage := limitOf q (str "per_page") 20 200
    if !(← Pg.acquire) then return .page none [] 1 20
    let header ← Pg.exam .header examId []
    match ← Pg.exam .submissions examId [intText perPage, intText ((page - 1) * perPage)] with
    | none => return .page none [] 1 20
    | some rows => return .page header rows page perPage

def pendingApprovals (_env : HandlerEnv) (req : Http.Request) : HandlerProg :=
  let examId := examIdParam req
  if examId = [] then respond examIdRequired
  else do
    let q := parseForm req.query
    let page := pageOf q
    let limit := limitOf q (str "limit") 100 500
    if !(← Pg.acquire) then return .page none [] 1 100
    match ← Pg.exam .pendingApprovals examId [intText limit, intText ((page - 1) * limit)] with
    | none => return .page none [] 1 100
    | some rows => return .page none rows page limit

/-- One statement on a connection of its own: `done`. -/
def execute (s : ExamStatement) (examId : Bytes) (params : List Bytes) : Prog Op Ans Bool := do
  if !(← Pg.acquire) then return false
  return (← Pg.exam s examId params).isSome

/-- `write_audit_log`: its failure is ignored. -/
def writeAuditLog (examId : Bytes) (who : Http.AuditIdentity) (action detail : Bytes) :
    Prog Op Ans Unit := do
  if ← Pg.acquire then
    let _ ← Pg.exam .insertAudit examId [intText who.userId.toInt, who.username, action, detail]
    pure ()

/-- The status that `set_approval` writes, if the form's status is one of the three. -/
def approvalStatus (body : Bytes) : Option Bytes :=
  let status := getParam (parseForm body) (str "status")
  let chosen := if status = [] then str "approved" else status
  if chosen = str "approved" ∨ chosen = str "rejected" ∨ chosen = str "pending" then some chosen
  else none

def setApproval (env : HandlerEnv) (req : Http.Request) : HandlerProg :=
  let examId := examIdParam req
  let mac := getParam req.params (str "mac_address")
  let updated : Http.Response :=
    ⟨200, str "\x7b\"success\":true,\"ok\":true,\"message\":\"Persetujuan diperbarui\"\x7d"⟩
  if examId = [] ∨ mac = [] then
    respond (Http.failure 400 (str "exam id dan mac_address wajib"))
  else
    match approvalStatus req.body with
    | none => respond (Http.failure 400 (str "status tidak valid"))
    | some status => do
        if ← execute .setApproval examId [mac, status] then
          writeAuditLog examId (Http.auditIdentityFrom req) (str "approval:" ++ status) mac
          return .response updated
        return .response (if env.databaseConfigured then databaseUnavailable else updated)

def enabledReply (enabled : Bool) (more : Bytes) : Http.Response :=
  ⟨200, str "\x7b\"success\":true,\"enabled\":" ++ (if enabled then str "true" else str "false") ++
    more ++ str "\x7d"⟩

def getAutoApprove (env : HandlerEnv) (req : Http.Request) : HandlerProg :=
  let examId := examIdParam req
  if examId = [] then respond examIdRequired
  else do
    if !(← Pg.acquire) then
      return .response (if env.databaseConfigured then databaseUnavailable
        else enabledReply false [])
    let rows ← Pg.exam .autoApprove examId []
    let value := ((rows.bind List.head?).bind List.head?).getD []
    return .response (enabledReply (value = str "t") [])

def setAutoApprove (env : HandlerEnv) (req : Http.Request) : HandlerProg :=
  let examId := examIdParam req
  if examId = [] then respond examIdRequired
  else do
    let fromForm := getParam (parseForm req.body) (str "enabled")
    let en := if fromForm = [] then getParam (parseForm req.query) (str "enabled") else fromForm
    let val := en = str "1" || en = str "true"
    let text := if val then str "true" else str "false"
    if ← execute .setAutoApprove examId [text] then
      writeAuditLog examId (Http.auditIdentityFrom req) (str "auto_approve:" ++ text) []
      return .response (enabledReply val (str ",\"message\":\"Auto-approve diperbarui\""))
    return .response (if env.databaseConfigured then databaseUnavailable else enabledReply val [])

def auditLimit (q : StringMap) : Int :=
  min 500 (max 1 (((stoi (getParam q (str "limit"))).map Int32.toInt).getD 100))

def examAuditLogs (_env : HandlerEnv) (req : Http.Request) : HandlerProg :=
  let examId := examIdParam req
  if examId = [] then respond examIdRequired
  else do
    if !(← Pg.acquire) then return .page none [] 1 100
    let limit := auditLimit (parseForm req.query)
    match ← Pg.exam .auditLogs examId [intText limit] with
    | none => return .page none [] 1 limit
    | some rows => return .page none rows 1 limit

end ExamVan.Admin
