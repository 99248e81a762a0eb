import ExamVan.Admin.Handlers
import ExamVan.Admin.UpdateExam
import ExamVan.Http.Identity
import ExamVan.Store.Memory

/-!
# Creating an exam

`create_exam` reserves the `Idempotency-Key` before it looks at the body. Every refusal after that
goes through `release_and_return`. The 201 in JSON finalizes the key, and the 201 in protobuf
returns before the code that does.
-/

namespace ExamVan.Admin

open ByteString Queue Models Api ExamToken Store

/-! ### Operations -/

/-- The operations of `create_exam` on the store. -/
inductive CreateOp
  | reserve (key fingerprint : Bytes)
  | finalize (key fingerprint : Bytes) (response : Store.Answer)
  | release (key : Bytes)
  | claimToken (token : Bytes)
  | unclaimToken (token : Bytes)
  | nextId
  | add (e : Exam)
  deriving DecidableEq

abbrev CreateAns : CreateOp → Type
  | .reserve _ _ => Reserved
  | .finalize _ _ _ | .release _ | .unclaimToken _ => Unit
  | .claimToken _ | .add _ => Bool
  | .nextId => Int32

abbrev CreateProg := Prog CreateOp CreateAns

/-- An operation on the memory store. -/
def CreateOp.perform : (op : CreateOp) → IdempotencyStore → CreateAns op × IdempotencyStore
  | .reserve key fingerprint, s => s.reserve key fingerprint
  | .finalize key fingerprint response, s => ((), s.finalize key fingerprint response)
  | .release key, s => ((), s.release key)
  | .claimToken token, s =>
      ((s.exams.claimToken token).1, { s with exams := (s.exams.claimToken token).2 })
  | .unclaimToken token, s => ((), { s with exams := s.exams.unclaimToken token })
  | .nextId, s => (s.exams.takeId.1, { s with exams := s.exams.takeId.2 })
  | .add e, s => ((s.exams.add e).1, { s with exams := (s.exams.add e).2 })

/-! ### What a call meets -/

/-- `CreateExamRequest`. -/
structure CreateExamRequest where
  name : Bytes
  filePath : Bytes
  sizeBytes : Int64
  customToken : Bytes
  pdfData : Bytes

/-- `CreateExamResponse`, with `success` set. -/
structure CreateExamResponse where
  id : Int32
  token : Bytes
  name : Bytes
  filePath : Bytes

/-- The generated code for the two messages. -/
structure ProtobufCodec where
  parse : Bytes → Option CreateExamRequest
  serialize : CreateExamResponse → Bytes

structure CreateEnv where
  /-- `format_iso_utc(now())` -/
  now : Bytes := []
  /-- the random bytes of each draw of `gen_token` -/
  random : Nat → Fin 8 → UInt8 := fun _ _ => 0
  r2 : R2Outcome := {}
  /-- `std::hash<std::string>` -/
  hash : Bytes → Nat := fun _ => 0
  protobufMandatory : Bool := false
  /-- the codec of a build with `HAS_PROTOBUF` -/
  protobuf : Option ProtobufCodec := none

/-! ### Headers -/

/-- `get_hdr`: the first header with this name in any spelling. -/
def getHdr (req : Http.Request) (name : Bytes) : Bytes :=
  ((req.headers.entries.find? fun kv => kv.1.map tolower = name.map tolower).map Prod.snd).getD []

def namesProtobuf (value : Bytes) : Bool :=
  [str "application/x-protobuf", str "application/protobuf", str "application/vnd.examvan"].any
    fun mime => (findSub mime (value.map tolower)).isSome

def isProtobufContent (req : Http.Request) : Bool := namesProtobuf (getHdr req (str "Content-Type"))

def isProtobufAccept (req : Http.Request) : Bool := namesProtobuf (getHdr req (str "Accept"))

def createContentType (req : Http.Request) : Bytes :=
  (req.headers.find? (str "Content-Type")).getD (getHdr req (str "Content-Type"))

def idempotencyKey (req : Http.Request) : Bytes := getHdr req (str "Idempotency-Key")

/-- `idempotency_fingerprint`. -/
def idempotencyFingerprint (env : CreateEnv) (req : Http.Request) : Bytes :=
  let fp := req.method ++ str "\\n" ++ req.path ++ str "\\n" ++ req.body
  natText (env.hash fp) ++ str ":" ++ natText fp.length

/-- `Response::json`. -/
def jsonAnswer (r : Http.Response) : Store.Answer := ⟨r.status, str "application/json", r.body⟩

/-- `require_protobuf` with `protobuf_mandatory` set. -/
def requireProtobuf (req : Http.Request) : Option Http.Response :=
  let accept := getHdr req (str "Accept")
  if req.method ∈ [str "POST", str "PUT", str "PATCH"] ∧ req.body ≠ [] ∧ !isProtobufContent req then
    some ⟨415, str "\x7b\"success\":false,\"error_code\":\"PROTOBUF_REQUIRED\"," ++
      str "\"message\":\"Gunakan application/x-protobuf\"\x7d"⟩
  else if (findSub (str "application/json") (accept.map tolower)).isSome ∧ !isProtobufAccept req then
    some ⟨406, str "\x7b\"success\":false,\"error_code\":\"PROTOBUF_REQUIRED\"," ++
      str "\"message\":\"Gunakan Accept: application/x-protobuf\"\x7d"⟩
  else none

/-! ### The body -/

/-- The fields of a new exam as the body has them. -/
structure CreateFields where
  name : Bytes
  filePath : Bytes
  size : Bytes
  customToken : Bytes
  fileName : Bytes := []
  fileData : Bytes := []

def protobufFields (pb : CreateExamRequest) : CreateFields :=
  if pb.pdfData = [] then
    ⟨pb.name, pb.filePath, if pb.sizeBytes ≠ 0 then intText pb.sizeBytes.toInt else [],
      pb.customToken, [], []⟩
  else
    let filePath := if pb.filePath = [] then str "upload.pdf" else pb.filePath
    ⟨pb.name, filePath, natText pb.pdfData.length, pb.customToken, filePath, pb.pdfData⟩

/-- The fields of a multipart body or a form. The code that would read JSON is not reached. -/
def formFields (req : Http.Request) : CreateFields :=
  let ct := createContentType req
  let parsed : MultipartForm :=
    if (findSub (str "multipart/form-data") ct).isSome then parseMultipart req.body ct
    else { fields := parseForm req.body }
  let size := getParam parsed.fields (str "size_bytes")
  let fields : CreateFields :=
    { name := getParam parsed.fields (str "name")
      filePath := getParam parsed.fields (str "file_path")
      size := size
      customToken := getParam parsed.fields (str "custom_token")
      fileName := parsed.fileName
      fileData := parsed.fileData }
  if parsed.fileName = [] then fields
  else
    { fields with
      filePath := parsed.fileName
      size := if size = [] then natText parsed.fileData.length else size }

/-- The fields of a body, or the refusal of its encoding. -/
def createFields (env : CreateEnv) (req : Http.Request) : Except Http.Response CreateFields :=
  let multipart := (findSub (str "multipart/form-data") (createContentType req)).isSome
  let refusal :=
    if env.protobufMandatory && !isProtobufContent req && !multipart && req.body ≠ [] then
      requireProtobuf req
    else none
  match refusal with
  | some r => .error r
  | none =>
      if isProtobufContent req then
        match env.protobuf with
        | none =>
            .error (Http.codedError 415 (str "protobuf not enabled") (str "PROTOBUF_REQUIRED"))
        | some codec =>
            match codec.parse req.body with
            | none => .error (Http.plainError 400 (str "invalid protobuf"))
            | some pb => .ok (protobufFields pb)
      else .ok (formFields req)

/-- The size that is stored: what the body says, but not less than the file has. -/
def createSize (fields : CreateFields) : Int64 :=
  let said : Int64 :=
    if fields.size ≠ [] then (stoll fields.size).getD 0 else Int64.ofNat fields.fileData.length
  let clamped := if said < 0 then 0 else said
  if fields.fileData = [] then clamped else max clamped (Int64.ofNat fields.fileData.length)

/-- The checks up to the token. -/
def checkCreate (req : Http.Request) (fields : CreateFields) : Except Http.Response CreateForm :=
  let name := sanitizeStudentInput fields.name
  let filePath := fields.filePath
  if name = [] then .error (Http.plainError 400 (str "name required"))
  else if name.any (· = 0) then
    .error (Http.plainError 400 (str "name contains invalid characters"))
  else if 255 < name.length then .error (Http.plainError 400 (str "name too long"))
  else if filePath = [] then .error (Http.plainError 400 (str "file_path required"))
  else if filePath.any fun c => c = 0 || c = chr '\\' then
    .error (Http.plainError 400 (str "file_path must not contain invalid characters"))
  else if fields.fileName = [] ∧ (findSub (str "..") filePath).isSome then
    .error (Http.plainError 400 (str "file_path must not contain traversal"))
  else if fields.fileData ≠ [] ∧ !validatePdfContent fields.fileData then
    .error (Http.plainError 400 (str "file must be valid PDF"))
  else if Int64.ofNat maxPdf < createSize fields then
    .error (Http.plainError 413 (str "file too large, max 5MB"))
  else
    .ok
      { name := name
        filePath := sanitizeFilename filePath
        size := createSize fields
        hasFile := fields.fileData ≠ []
        createdBy := Http.createdByFrom req }

/-! ### The handler -/

/-- `release_and_return`. -/
def releaseAndReturn (idem : Bytes) (r : Http.Response) : CreateProg Store.Answer :=
  if idem = [] then .done (jsonAnswer r)
  else .call (.release idem) fun _ => .done (jsonAnswer r)

/-- The draws of `gen_token` until one is claimed. -/
def claimGenerated (env : CreateEnv) : Nat → Nat → CreateProg (Option Bytes)
  | 0, _ => .done none
  | tries + 1, i =>
      .call (.claimToken (generateToken (env.random i))) fun claimed =>
        if claimed then .done (some (generateToken (env.random i)))
        else claimGenerated env tries (i + 1)

/-- The token of the new exam, claimed. -/
def claimCreateToken (env : CreateEnv) (customToken : Bytes) :
    CreateProg (Except Http.Response Bytes) := do
  if customToken ≠ [] then
    match chosenToken customToken with
    | none => return .error (Http.plainError 400 (str "custom_token must be 8 A-Z0-9"))
    | some token =>
        if ← .op (.claimToken token.text) then return .ok token.text
        else return .error customTokenInUse
  else
    match ← claimGenerated env 5 0 with
    | none =>
        return .error
          (Http.codedError 409 (str "token generation failed after retries") (str "TOKEN_COLLISION"))
    | some token => return .ok token

/-- The answer is a protobuf message. -/
def repliesProtobuf (env : CreateEnv) (req : Http.Request) : Bool :=
  env.protobuf.isSome && isProtobufAccept req

/-- `create_exam` after `add`. -/
def replyCreated (env : CreateEnv) (req : Http.Request) (idem fingerprint : Bytes)
    (form : CreateForm) (id : Int32) (token : Bytes) : CreateProg Store.Answer :=
  let protobuf := if isProtobufAccept req then env.protobuf else none
  match protobuf with
  | some codec =>
      .done ⟨201, str "application/x-protobuf",
        codec.serialize ⟨id, token, form.name, form.filePath⟩⟩
  | none =>
      let r := jsonAnswer (createdReply form id token env.now)
      if idem = [] then .done r
      else .call (.finalize idem fingerprint r) fun _ => .done r

/-- `create_exam` after the reservation. -/
def createReserved (env : CreateEnv) (req : Http.Request) (idem fingerprint : Bytes) :
    CreateProg Store.Answer :=
  match createFields env req with
  | .error r => releaseAndReturn idem r
  | .ok fields =>
  match checkCreate req fields with
  | .error r => releaseAndReturn idem r
  | .ok form => do
  match ← claimCreateToken env fields.customToken with
  | .error r => releaseAndReturn idem r
  | .ok token =>
    let id ← .op .nextId
    match uploadRefusal form env.r2 with
    | some r =>
        let _ ← .op (.unclaimToken token)
        releaseAndReturn idem r
    | none =>
        if ← .op (.add (newExam form id token env.now)) then
          replyCreated env req idem fingerprint form id token
        else
          let _ ← .op (.unclaimToken token)
          releaseAndReturn idem customTokenInUse

/-- `create_exam` by the answer of the reservation. -/
def afterReserve (env : CreateEnv) (req : Http.Request) (idem fingerprint : Bytes) :
    Reserved → CreateProg Store.Answer
  | .replay response => .done response
  | .conflict => .done (jsonAnswer
      (Http.codedError 409 (str "Idempotency-Key conflict") (str "IDEMPOTENCY_CONFLICT")))
  | .new => createReserved env req idem fingerprint

/-- `create_exam`. -/
def createExam (env : CreateEnv) (req : Http.Request) : CreateProg Store.Answer :=
  let idem := idempotencyKey req
  if idem = [] then createReserved env req [] []
  else if 255 < idem.length then
    .done (jsonAnswer (Http.plainError 400 (str "invalid Idempotency-Key")))
  else
    let fingerprint := idempotencyFingerprint env req
    .call (.reserve idem fingerprint) (afterReserve env req idem fingerprint)

theorem createExam_eq {env : CreateEnv} {req : Http.Request} (hidem : idempotencyKey req ≠ [])
    (hlength : (idempotencyKey req).length ≤ 255) :
    createExam env req =
      .call (.reserve (idempotencyKey req) (idempotencyFingerprint env req))
        (afterReserve env req (idempotencyKey req) (idempotencyFingerprint env req)) := by
  unfold createExam
  dsimp only
  rw [if_neg hidem, if_neg (not_lt.mpr hlength)]

theorem createExam_of_long {env : CreateEnv} {req : Http.Request}
    (hlength : 255 < (idempotencyKey req).length) : ∃ r, createExam env req = .done r := by
  have hidem : idempotencyKey req ≠ [] := List.ne_nil_of_length_pos (by omega)
  unfold createExam
  dsimp only
  rw [if_neg hidem, if_pos hlength]
  exact ⟨_, rfl⟩

end ExamVan.Admin
