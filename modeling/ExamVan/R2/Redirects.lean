import ExamVan.Api.SubmitGate
import ExamVan.Middleware.RateLimiter
import ExamVan.R2.ExamFiles

/-!
# Redirects to the store

The exam's file and the apps are not sent by the server: a request that passes its checks is
redirected to a presigned URL. The checks of `exam_pdf` are those of a submission, except that a token
and an approval are both required.
-/

namespace ExamVan.R2

open ByteString SigV4 Queue Models Admin Api
open Http (plainError codedError failure)

variable (S : Suite)

/-- A 302 with its `Location`, or another response. -/
inductive Redirected
  | location (url : Bytes)
  | refused (r : Http.Response)
  deriving DecidableEq

/-- What a request for a file meets. -/
structure PdfEnv where
  getById : Int32 → Option Exam
  clock : Clock
  /-- the system's clock, in nanoseconds -/
  now : Int
  approval : ApprovalLookup
  rateLimitAllowed : Bytes → Int32 → Bytes → Bytes → Nat → Bool := fun _ _ _ _ _ => true
  cfg : R2Config
  /-- `EXAMVAN_R2_TESTMODE` -/
  testMode : Bool := false
  /-- the looks for the two keys -/
  first : Attempt
  second : Attempt
  /-- `time(nullptr)` of `presign_url` -/
  signedAt : Int

/-- The header or the query's `token`. -/
def pdfToken (req : Api.Request) : Bytes :=
  orForm (fieldOr req.headers (str "X-Exam-Token") []) req.query (str "token")

/-- The first header of that name in any case, or the query's `mac_address`. -/
def pdfDevice (req : Api.Request) : Bytes :=
  let sent := (req.headers.entries.find? fun kv => kv.1.map tolower = str "x-device-id").elim [] Prod.snd
  sanitizeMacLikeGo (orForm sent req.query (str "mac_address"))

/-- `exam_pdf` -/
def examPdf (svc : Service) (env : PdfEnv) (req : Api.Request) (objects : Objects) : Redirected :=
  match fieldOr req.params (str "exam_id") [] with
  | [] => .refused (plainError 400 (str "exam id required"))
  | idText =>
  match stoi idText with
  | none => .refused (plainError 404 (str "exam not found"))
  | some examId =>
  match env.getById examId with
  | none => .refused (plainError 404 (str "exam not found"))
  | some exam =>
  if exam.filePath = [] then .refused (plainError 404 (str "file not found"))
  else if pdfToken req = [] then .refused (failure 401 (str "Token tidak disertakan"))
  else if !examStarted exam || !ExamToken.matchesToken exam (pdfToken req) then
    .refused (failure 404 (str "Ujian tidak ditemukan"))
  else if scheduleEnded env.clock env.now exam then
    .refused (failure 403 (str "Waktu ujian telah berakhir"))
  else if pdfDevice req = [] || pdfDevice req = str "unknown" ||
      !deviceApproved env.approval examId (pdfDevice req) then
    .refused (failure 403 (str "Perangkat belum disetujui pengawas"))
  else if !env.rateLimitAllowed (str "ratelimit:pdf:") examId (pdfDevice req)
      (fieldOr req.headers (str "X-Forwarded-For") []) 10 then
    .refused (failure 429 (str "Terlalu banyak request. Silakan coba lagi nanti."))
  else if !env.cfg.enabled then
    .refused (codedError 503 r2NotConfigured (str "R2_NOT_CONFIGURED"))
  else
    let key := pdfKeyFor S svc env.cfg env.testMode examId exam.filePath env.first env.second objects
    match presignUrl S env.cfg env.signedAt key 3600 with
    | [] => .refused (codedError 503 (str "Gagal menghasilkan URL unduhan.") (str "SIGNED_URL_FAILED"))
    | url => .location url

/-- The configuration in place of none, outside production. -/
def testConfig : R2Config where
  accessKey := str "test-access"
  secretKey := str "test-secret"
  endpoint := str "https://test.r2.cloudflarestorage.com"
  bucket := str "test-bucket"

/-- The end of both downloads. -/
def redirectTo (cfg : R2Config) (signedAt : Int) (key : Bytes) : Redirected :=
  let url := presignUrl S cfg signedAt key 3600
  .location (if url = [] then str "https://test.r2.cloudflarestorage.com/test-bucket/" ++ key ++
    str "?presigned=1" else url)

/-- `download_apk`, for the server's version. -/
def downloadApk (cfg : R2Config) (production : Bool) (version : Bytes) (signedAt : Int) : Redirected :=
  if !cfg.enabled && production then
    .refused ⟨503, str "\x7b\"code\":\"R2_NOT_CONFIGURED\",\"error\":\"Cloudflare R2 tidak dikonfigurasi.\"\x7d"⟩
  else
    redirectTo S (if cfg.enabled then cfg else testConfig) signedAt
      (objectKeyForApp version (str "student"))

def systemAppKey (id : Bytes) : Bytes := str "apps/android/" ++ id ++ str "/app.apk"

/-- `download_system_app` -/
def downloadSystemApp (cfg : R2Config) (production : Bool) (req : Api.Request) (signedAt : Int) :
    Redirected :=
  match req.params.find? (str "id") with
  | none => .refused (plainError 404 (str "not found"))
  | some id =>
  if !id.all isDigit then .refused (plainError 404 (str "not found"))
  else if !cfg.enabled && production then .refused ⟨503, str "\x7b\"code\":\"R2_NOT_CONFIGURED\"\x7d"⟩
  else redirectTo S (if cfg.enabled then cfg else testConfig) signedAt (systemAppKey id)

/-! ### The checks of a file -/

/-- A request for a file passes every check. -/
structure PdfAdmits (env : PdfEnv) (req : Api.Request) (examId : Int32) (exam : Exam) : Prop where
  found : stoi (fieldOr req.params (str "exam_id") []) = some examId ∧ env.getById examId = some exam
  file : exam.filePath ≠ []
  started : exam.isActive = true ∧ ∃ text, exam.examStartedAt = some text ∧ text ≠ []
  token : ExamToken.matchesToken exam (pdfToken req) = true
  inTime : scheduleEnded env.clock env.now exam = false
  device : pdfDevice req ≠ str "unknown" ∧ deviceApproved env.approval examId (pdfDevice req) = true
  rateLimited : env.rateLimitAllowed (str "ratelimit:pdf:") examId (pdfDevice req)
    (fieldOr req.headers (str "X-Forwarded-For") []) 10 = true

/-- For an hour, the URL is answered with the object of the path. -/
def Opens (svc : Service) (signedAt : Int) (url path : Bytes) (objects : Objects) : Prop :=
  ∀ later, signedAt - svc.skew ≤ later ∧ later ≤ signedAt + termOf 3600 →
    (requestOf (str "GET") url).map (serve svc later · objects) =
      some (objects.answer (str "GET") path [])

/-- The object of an exam's file: the one from before with the same name, if it is found. -/
def fileOf (skew : Nat) (env : PdfEnv) (examId : Int32) (exam : Exam) (objects : Objects) : Bytes :=
  let before := env.cfg.object (objectKeyPdfLegacy exam.filePath)
  if env.first.Applies skew ∧ env.first.answered = true ∧ (objects before).isSome then before
  else env.cfg.object (objectKeyForExam examId exam.filePath)

variable {S} {env : PdfEnv} {req : Api.Request} {host : Bytes} {secretOf : Bytes → Option Bytes}
  {skew : Nat} {objects : Objects}

theorem examStarted_iff {exam : Exam} : examStarted exam = true ↔
    exam.isActive = true ∧ ∃ text, exam.examStartedAt = some text ∧ text ≠ [] := by
  refine ⟨started_of_examStarted, fun h => ?_⟩
  obtain ⟨hactive, text, htext, hne⟩ := h
  simp [examStarted, hactive, htext, hne]

theorem matchesToken_nil (exam : Exam) : ExamToken.matchesToken exam [] = false := rfl

theorem presignUrl_ne_nil {cfg : R2Config} (h : cfg.Sound host) (now : Int)
    (hnow : 0 ≤ now ∧ now ≤ 9223372037) (key : Bytes) (expires : Int32) :
    presignUrl S cfg now key expires ≠ [] := by
  rw [presignUrl_eq h hnow]
  exact List.cons_ne_nil _ _

/-- A request is redirected, to the URL of its exam's key, exactly if it passes every check. -/
theorem examPdf_location_iff (svc : Service) (h : env.cfg.Sound host)
    (hsigned : 0 ≤ env.signedAt ∧ env.signedAt ≤ 9223372037) (url : Bytes) :
    examPdf S svc env req objects = .location url ↔
      ∃ examId exam, PdfAdmits env req examId exam ∧
        url = presignUrl S env.cfg env.signedAt (pdfKeyFor S svc env.cfg env.testMode examId
          exam.filePath env.first env.second objects) 3600 := by
  have hkey : ∀ key, ∃ c rest, presignUrl S env.cfg env.signedAt key 3600 = c :: rest := fun key =>
    List.exists_cons_of_ne_nil (presignUrl_ne_nil h _ hsigned key 3600)
  constructor
  · intro hurl
    unfold examPdf at hurl
    split at hurl
    · cases hurl
    split at hurl
    · cases hurl
    next examId hstoi =>
    split at hurl
    · cases hurl
    next exam hexam =>
    split_ifs at hurl with hfile htoken hmatches hended hdevice hlimit henabled
    obtain ⟨c, rest, hpresigned⟩ := hkey (pdfKeyFor S svc env.cfg env.testMode examId exam.filePath
      env.first env.second objects)
    dsimp only at hurl
    rw [hpresigned] at hurl
    simp only [Bool.or_eq_true, Bool.not_eq_true', not_or, Bool.not_eq_false] at hmatches
    simp only [Bool.or_eq_true, Bool.not_eq_true', not_or, Bool.not_eq_false, decide_eq_true_eq] at hdevice
    refine ⟨examId, exam,
      { found := ⟨hstoi, hexam⟩
        file := hfile
        started := started_of_examStarted hmatches.1
        token := hmatches.2
        inTime := by simpa using hended
        device := ⟨hdevice.1.2, hdevice.2⟩
        rateLimited := by simpa using hlimit }, ?_⟩
    cases hurl
    exact hpresigned.symm
  · rintro ⟨examId, exam, hadmits, rfl⟩
    obtain ⟨c, rest, hpresigned⟩ := hkey (pdfKeyFor S svc env.cfg env.testMode examId exam.filePath
      env.first env.second objects)
    have hid : fieldOr req.params (str "exam_id") [] ≠ [] := by
      intro hnil
      have hfound := hadmits.found.1
      rw [hnil] at hfound
      cases hfound
    have htoken : pdfToken req ≠ [] := by
      intro hnil
      have hmatches := hadmits.token
      rw [hnil, matchesToken_nil] at hmatches
      cases hmatches
    have hdevice : pdfDevice req ≠ [] := sanitizeMacLikeGo_ne_nil _
    unfold examPdf
    split
    next hnil => exact absurd hnil hid
    rw [hadmits.found.1]
    dsimp only
    rw [hadmits.found.2]
    dsimp only
    rw [hpresigned]
    simp [hadmits.file, htoken, examStarted_iff.mpr hadmits.started, hadmits.token, hadmits.inTime,
      hdevice, hadmits.device.1, hadmits.device.2, hadmits.rateLimited, enabled_sound h]

/-! ### Main results -/

def pdfExam : Exam where
  id := 7
  filePath := sanitizeFilename (str "soal.pdf")
  activeToken := str "ABCD1234"
  status := str "active"
  examStartedAt := some (str "2023-11-14T22:00:00Z")

def pdfEnv : PdfEnv where
  getById examId := if examId = 7 then some pdfExam else none
  clock := ⟨fun _ => none, fun _ => []⟩
  now := 1700000000
  approval := { hook := some fun _ mac => mac = str "AA" , statusOf := fun _ _ => none }
  cfg := pdfConfig
  first := { clock := 1700000000, arrival := 1700000000 }
  second := { clock := 1700000000, arrival := 1700000000 }
  signedAt := 1700000001

def pdfRequest : Api.Request where
  headers := (OrderedMap.empty.insert (str "X-Exam-Token") (str "abcd1234")).insert
    (str "x-device-id") (str "AA")
  params := OrderedMap.empty.insert (str "exam_id") (str "7")

theorem plain_systemApp {cfg : R2Config} (h : cfg.Sound host) {id : Bytes} (hid : id.all isDigit = true) :
    Percent.Plain (cfg.object (systemAppKey id)) := by
  have hslash : str "/" = [chr '/'] := by decide
  have happs : str "apps/android/" = str "apps" ++ chr '/' :: (str "android" ++ [chr '/']) := by decide
  have happ : str "/app.apk" = chr '/' :: str "app.apk" := by decide
  have hpath : cfg.object (systemAppKey id) = [chr '/'].intercalate
      [[], cfg.bucket, str "apps", str "android", id, str "app.apk"] := by
    simp [R2Config.object, systemAppKey, List.intercalate, hslash, happs, happ]
  have hdigit : ∀ {c}, c ∈ id → isDigit c = true := fun hc => List.all_eq_true.mp hid _ hc
  rw [hpath]
  apply plain_intercalate (List.cons_ne_nil _ _)
  simp only [List.forall_mem_cons, List.not_mem_nil, false_imp_iff, implies_true, and_true]
  refine ⟨by decide, segment_bucket h, by decide, by decide, ⟨?_, ?_, ?_⟩, by decide⟩
  · exact fun hmem => absurd (hdigit hmem) (by decide)
  · rintro rfl
    exact absurd (hdigit (by decide : chr '.' ∈ _)) (by decide)
  · rintro rfl
    exact absurd (hdigit (by decide : chr '.' ∈ _)) (by decide)

/-- Whatever is asked for as an app, the store is asked for an app with a number. -/
theorem downloadSystemApp_opens {cfg : R2Config} (h : cfg.Sound host)
    (hsecret : secretOf cfg.accessKey = some cfg.secretKey) {production : Bool} {signedAt : Int}
    (hsigned : 0 ≤ signedAt ∧ signedAt ≤ 9223372037) {url : Bytes}
    (hurl : downloadSystemApp S cfg production req signedAt = .location url) :
    ∃ id, req.params.find? (str "id") = some id ∧ id.all isDigit = true ∧
      Opens (store S secretOf skew) signedAt url (cfg.object (systemAppKey id)) objects := by
  unfold downloadSystemApp at hurl
  split at hurl
  · cases hurl
  next id hfound =>
  have hconfig : (if cfg.enabled then cfg else testConfig) = cfg := if_pos (enabled_sound h)
  have hne := presignUrl_ne_nil (S := S) h signedAt hsigned (systemAppKey id) 3600
  rw [hconfig] at hurl
  split_ifs at hurl with hid
  simp only [Bool.not_eq_true', Bool.not_eq_false] at hid
  unfold redirectTo at hurl
  dsimp only at hurl
  rw [if_neg hne] at hurl
  cases hurl
  refine ⟨id, hfound, hid, fun later hlater => ?_⟩
  exact serve_presignUrl h hsecret (plain_systemApp h hid) hsigned hlater objects

theorem downloadSystemApp_opens_two :
    ∃ id, (OrderedMap.empty.insert (str "id") (str "2")).find? (str "id") = some id ∧
      id.all isDigit = true ∧
        Opens (store openssl pdfSecrets 900) 1700000000
          (presignUrl openssl pdfConfig 1700000000 (systemAppKey (str "2")) 3600)
          (pdfConfig.object (systemAppKey id)) fun _ => none := by
  refine @downloadSystemApp_opens openssl
    { params := OrderedMap.empty.insert (str "id") (str "2") } pdfHost pdfSecrets 900 (fun _ => none)
    pdfConfig sound_pdfConfig (by decide) true 1700000000 (by decide) _ ?_
  have hne := presignUrl_ne_nil (S := openssl) sound_pdfConfig 1700000000 (by decide)
    (systemAppKey (str "2")) 3600
  change redirectTo openssl pdfConfig 1700000000 (systemAppKey (str "2")) = _
  exact congrArg Redirected.location (if_neg hne)

end ExamVan.R2
