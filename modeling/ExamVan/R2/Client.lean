import ExamVan.Lib.SignedHeaders
import ExamVan.R2.Presign

/-!
# The client of the object store

`R2Client` uploads, looks for and removes objects with requests that carry their signature. A request
or its answer may get lost on the way, and an upload is tried three times.
-/

namespace ExamVan.R2

open ByteString SigV4

/-! ### The store's objects -/

/-- The contents of the objects, by their paths. -/
abbrev Objects := Bytes → Option Bytes

def Objects.put (objects : Objects) (path data : Bytes) : Objects := Function.update objects path (some data)

def Objects.delete (objects : Objects) (path : Bytes) : Objects := Function.update objects path none

/-- What the store answers, and what is in it afterwards. -/
structure Answer where
  code : Nat
  body : Bytes := []
  objects : Objects

/-- What a method does to the object of a path. -/
def Objects.answer (objects : Objects) (method path body : Bytes) : Answer :=
  if method = str "PUT" then { code := 200, objects := objects.put path body }
  else if method = str "DELETE" then { code := 204, objects := objects.delete path }
  else
    match objects path with
    | none => { code := 404, objects }
    | some data => { code := 200, body := if method = str "GET" then data else [], objects }

/-- A request is answered when it is presigned or carries its signature. -/
def serve (svc : Service) (now : Int) (req : SigV4.Request) (objects : Objects) : Answer :=
  if svc.admits now req || svc.admitsAuthorized now req then
    objects.answer req.method (Percent.decode req.path) req.body
  else { code := 403, objects }

/-! ### Signing a request -/

variable (S : Suite)

/-- `curl_append_header`: the value of `Authorization`. -/
def curlAppendHeader (cfg : R2Config) (now : Int) (method canonicalUri payloadHash host : Bytes) :
    Bytes :=
  let date8 := (dateFull now).take 8
  let region := regionForEndpoint cfg.endpoint
  let canonicalHeaders := str "host:" ++ host ++ str "\n" ++ str "x-amz-content-sha256:" ++
    payloadHash ++ str "\n" ++ str "x-amz-date:" ++ dateFull now ++ str "\n"
  let signedHeaders := str "host;x-amz-content-sha256;x-amz-date"
  let canonicalRequest := method ++ str "\n" ++ canonicalUri ++ str "\n\n" ++ canonicalHeaders ++
    str "\n" ++ signedHeaders ++ str "\n" ++ payloadHash
  let scope := date8 ++ str "/" ++ region ++ str "/s3/aws4_request"
  let stringToSign := str "AWS4-HMAC-SHA256\n" ++ dateFull now ++ str "\n" ++ scope ++ str "\n" ++
    sha256Hex S canonicalRequest
  str "AWS4-HMAC-SHA256 Credential=" ++ cfg.accessKey ++ str "/" ++ scope ++ str ", SignedHeaders=" ++
    signedHeaders ++ str ", Signature=" ++ signHex S cfg.secretKey date8 region stringToSign

def canonicalUriOf (cfg : R2Config) (key : Bytes) : Bytes :=
  str "/" ++ cfg.bucket ++ str "/" ++ encodedKey key

/-- `build_url` -/
def buildUrl (cfg : R2Config) (key : Bytes) : Bytes :=
  endpointNoSlash cfg.endpoint ++ str "/" ++ cfg.bucket ++ str "/" ++ encodedKey key

/-- The request that libcurl sends. -/
def curlRequest (cfg : R2Config) (clock : Int) (method key body : Bytes) (extra : List Parameter) :
    Option SigV4.Request :=
  let payloadHash := sha256Hex S body
  (requestOf method (buildUrl cfg key)).map fun req =>
    { req with
      headers := req.headers ++
        (authorizationName, curlAppendHeader S cfg clock method (canonicalUriOf cfg key) payloadHash
          (hostOf cfg.endpoint)) ::
        (amzDateName, dateFull clock) :: (contentHashName, payloadHash) :: extra
      body := body }

/-! ### The network -/

/-- What becomes of one attempt. -/
structure Attempt where
  /-- `curl_easy_init` -/
  initialised : Bool := true
  /-- `time(nullptr)` of the client -/
  clock : Int
  reaches : Bool := true
  /-- the clock of the store -/
  arrival : Int
  answered : Bool := true

/-- `curl_easy_perform`: the code of the answer, or `none` for another result than `CURLE_OK`. -/
def perform (svc : Service) (a : Attempt) (req : Option SigV4.Request) (objects : Objects) :
    Option Nat × Objects :=
  match req with
  | none => (none, objects)
  | some req =>
      if a.reaches then
        let answer := serve svc a.arrival req objects
        (if a.answered then some answer.code else none, answer.objects)
      else (none, objects)

def isSuccess (code : Option Nat) : Bool := code.elim false fun code => 200 ≤ code && code < 300

/-- One request of the client, and whether it has succeeded. -/
def call (svc : Service) (cfg : R2Config) (method key body : Bytes) (extra : List Parameter)
    (a : Attempt) (objects : Objects) : Bool × Objects :=
  if !a.initialised then (false, objects)
  else
    let result := perform svc a (curlRequest S cfg a.clock method key body extra) objects
    (isSuccess result.1, result.2)

/-! ### The client -/

def contentTypeHeader (contentType : Bytes) : List Parameter := [(str "content-type", contentType)]

/-- The attempts of `R2Client::upload`. -/
def uploadLoop (svc : Service) (cfg : R2Config) (key data contentType : Bytes) :
    List Attempt → Objects → Bool × Objects
  | [], objects => (false, objects)
  | a :: attempts, objects =>
      if !a.initialised then (false, objects)
      else
        let result := call S svc cfg (str "PUT") key data (contentTypeHeader contentType) a objects
        if result.1 then (true, result.2)
        else uploadLoop svc cfg key data contentType attempts result.2

def kMaxAttempts : Nat := 3

/-- The checks that precede a request; `some` where they decide. -/
def precheck (cfg : R2Config) (testMode : Bool) : Option Bool :=
  if !cfg.enabled then some false else if cfg.bucket = [] then some false
  else if testMode then some true
  else if !cfg.atR2 then some false else none

/-- `R2Client::upload` -/
def upload (svc : Service) (cfg : R2Config) (testMode : Bool) (key data contentType : Bytes)
    (attempts : Nat → Attempt) (objects : Objects) : Bool × Objects :=
  match precheck cfg testMode with
  | some decided => (decided, objects)
  | none => uploadLoop S svc cfg key data contentType ((List.range kMaxAttempts).map attempts) objects

/-- `R2Client::verify` -/
def verify (svc : Service) (cfg : R2Config) (testMode : Bool) (key : Bytes) (a : Attempt)
    (objects : Objects) : Bool × Objects :=
  match precheck cfg testMode with
  | some decided => (decided, objects)
  | none => call S svc cfg (str "HEAD") key [] [] a objects

/-- `R2Client::remove` -/
def remove (svc : Service) (cfg : R2Config) (testMode : Bool) (key : Bytes) (a : Attempt)
    (objects : Objects) : Bool × Objects :=
  match precheck cfg testMode with
  | some decided => (decided, objects)
  | none => call S svc cfg (str "DELETE") key [] [] a objects

/-- `resolve_existing_pdf_key`: the key of the older layout, or else of the newer one. -/
def resolveExistingPdfKey (svc : Service) (cfg : R2Config) (testMode : Bool) (examId : Int32)
    (filename : Bytes) (first second : Attempt) (objects : Objects) : Bytes :=
  if cfg.enabled then
    let goKey := objectKeyPdfLegacy filename
    if (verify S svc cfg testMode goKey first objects).1 then goKey
    else
      let cppKey := objectKeyForExam examId filename
      if (verify S svc cfg testMode cppKey second objects).1 then cppKey else []
  else []

/-! ### What is signed -/

variable {S} {cfg : R2Config} {host key method body data contentType : Bytes} {now : Int}
  {extra : List Parameter} {secretOf : Bytes → Option Bytes} {skew : Nat} {a : Attempt}
  {objects : Objects}

theorem curlAppendHeader_eq (h : cfg.Sound host) (now : Int) (method payload : Bytes) (key : Bytes) :
    curlAppendHeader S cfg now method (canonicalUriOf cfg key) payload (hostOf cfg.endpoint) =
      signAuthorization S cfg.accessKey cfg.secretKey (dateFull now) (str "auto") method host
        (cfg.object key) payload := by
  have hregion : regionForEndpoint cfg.endpoint = str "auto" := ite_self _
  have hline : str "\n" = [chr '\n'] := by decide
  have hslash : str "/" = [chr '/'] := by decide
  have huri : canonicalUriOf cfg key = Percent.encode Percent.isPathByte (cfg.object key) := by
    rw [encode_object h]
    simp [canonicalUriOf, hslash]
  have hcanonical : (signCanonical method host (cfg.object key) payload (dateFull now)).text =
      method ++ str "\n" ++ canonicalUriOf cfg key ++ str "\n\n" ++ (str "host:" ++ host ++ str "\n" ++
        str "x-amz-content-sha256:" ++ payload ++ str "\n" ++ str "x-amz-date:" ++ dateFull now ++
          str "\n") ++ str "\n" ++ str "host;x-amz-content-sha256;x-amz-date" ++ str "\n" ++ payload := by
    have hlines : str "\n\n" = [chr '\n', chr '\n'] := by decide
    have hhost : str "host:" = hostName ++ [chr ':'] := by decide
    have hhash : str "x-amz-content-sha256:" = contentHashName ++ [chr ':'] := by decide
    have hdate : str "x-amz-date:" = amzDateName ++ [chr ':'] := by decide
    have hnames : str "host;x-amz-content-sha256;x-amz-date" =
        hostName ++ chr ';' :: (contentHashName ++ chr ';' :: amzDateName) := by decide
    simp [Canonical.text, Canonical.headerText, Canonical.signedNames, signCanonical,
      authorizedHeaders, huri, hline, hlines, hhost, hhash, hdate, hnames]
  have hterminator : str "aws4_request" = terminator := rfl
  have hservice : str "/s3/aws4_request" = chr '/' :: (str "s3" ++ chr '/' :: terminator) := by decide
  have hlead : str "AWS4-HMAC-SHA256\n" = algorithm ++ [chr '\n'] := by decide
  have hcredential : str "AWS4-HMAC-SHA256 Credential=" =
      algorithm ++ chr ' ' :: (credentialField ++ [chr '=']) := by decide
  have hcomma : str ", " = [chr ',', chr ' '] := by decide
  have hsigned : str ", SignedHeaders=" = chr ',' :: chr ' ' :: (signedHeadersField ++ [chr '=']) := by
    decide
  have hsignature : str ", Signature=" = chr ',' :: chr ' ' :: (signatureField ++ [chr '=']) := by
    decide
  have hnames : str "host;x-amz-content-sha256;x-amz-date" = authorizedNames := rfl
  unfold curlAppendHeader
  dsimp only
  rw [hregion, hostOf_endpoint h, ← hcanonical]
  simp [signAuthorization, authorization, credential, Suite.signature, Suite.signingKey,
    Suite.stringToSign, Scope.text, signHex, sha256Hex, hline, hslash, hterminator, hservice, hlead,
    hcredential, hcomma, hsigned, hsignature, hnames]

/-- The request that libcurl sends carries a signature of itself. -/
theorem curlRequest_eq (h : cfg.Sound host) (hplain : Percent.Plain (cfg.object key)) :
    curlRequest S cfg now method key body extra =
      some (sign S cfg.accessKey cfg.secretKey (dateFull now) (str "auto") method host (cfg.object key)
        body extra) := by
  have hurl : buildUrl cfg key = str "https://" ++ (host ++
      (Percent.encode Percent.isPathByte (cfg.object key) ++ [])) := by
    have hslash : str "/" = [chr '/'] := by decide
    rw [buildUrl, endpointNoSlash_endpoint h, encode_object h]
    simp [hslash]
  have hhash : chr '#' ∉ Percent.encode Percent.isPathByte (cfg.object key) ++ [] := by
    rw [List.append_nil]
    exact notMem_path (by decide) key
  unfold curlRequest
  dsimp only
  rw [hurl, requestOf_https h _ (by rw [encode_object h]; rfl) (notMem_path (by decide) key) hhash rfl
    (Percent.plain_encode hplain), Option.map_some, curlAppendHeader_eq h]
  rfl

/-! ### What becomes of a request -/

/-- The clocks of the client and the store agree. -/
def Attempt.Agrees (skew : Nat) (a : Attempt) : Prop :=
  a.clock - skew ≤ a.arrival ∧ a.arrival ≤ a.clock + skew

instance (skew : Nat) (a : Attempt) : Decidable (a.Agrees skew) :=
  inferInstanceAs (Decidable (a.clock - skew ≤ a.arrival ∧ a.arrival ≤ a.clock + skew))

/-- The request has its effect. -/
def Attempt.Applies (skew : Nat) (a : Attempt) : Prop :=
  a.initialised = true ∧ a.reaches = true ∧ a.Agrees skew

instance (skew : Nat) (a : Attempt) : Decidable (a.Applies skew) :=
  inferInstanceAs (Decidable (a.initialised = true ∧ a.reaches = true ∧ a.Agrees skew))

/-- An attempt at a time that a stamp can show. -/
def Attempt.Timed (a : Attempt) : Prop := 0 ≤ a.clock ∧ a.clock ≤ 9223372037

theorem serve_sign (h : cfg.Sound host) (hsecret : secretOf cfg.accessKey = some cfg.secretKey)
    (ha : a.Timed) :
    serve (store S secretOf skew) a.arrival
        (sign S cfg.accessKey cfg.secretKey (dateFull a.clock) (str "auto") method host (cfg.object key)
          body extra) objects =
      if a.Agrees skew then objects.answer method (cfg.object key) body
      else { code := 403, objects } := by
  set req := sign S cfg.accessKey cfg.secretKey (dateFull a.clock) (str "auto") method host
    (cfg.object key) body extra with hreq
  have hnone : get (parameters req.query) credentialName = none := rfl
  have hpresigned : (store S secretOf skew).admits a.arrival req = false := by
    rw [Service.admits, Service.readPresigned, hnone]
    rfl
  have hsigned : (store S secretOf skew).admitsAuthorized a.arrival req = true ↔ a.Agrees skew :=
    admitsAuthorized_sign_iff (store S secretOf skew) hsecret (readStamp_dateFull ha)
      ⟨h.accessKey.2.1, h.accessKey.2.2⟩
      ⟨notMem_date ha (by decide), notMem_date ha (by decide)⟩
      (by change chr '/' ∉ str "auto" ∧ chr ',' ∉ str "auto"; decide) body extra
  have hpath : Percent.decode req.path = cfg.object key := Percent.decode_encode (by decide) _
  unfold serve
  rw [hpresigned, Bool.false_or, hpath]
  by_cases hagrees : a.Agrees skew
  · rw [if_pos (hsigned.mpr hagrees), if_pos hagrees]
    rfl
  · rw [if_neg (hsigned.not.mpr hagrees), if_neg hagrees]

/-- A request of the client succeeds when it has its effect, the answer arrives and tells of success. -/
theorem call_eq (h : cfg.Sound host) (hsecret : secretOf cfg.accessKey = some cfg.secretKey)
    (hplain : Percent.Plain (cfg.object key)) (ha : a.Timed) :
    call S (store S secretOf skew) cfg method key body extra a objects =
      if a.Applies skew then
        (a.answered && isSuccess (some (objects.answer method (cfg.object key) body).code),
          (objects.answer method (cfg.object key) body).objects)
      else (false, objects) := by
  unfold call
  rw [curlRequest_eq h hplain]
  unfold perform
  dsimp only
  rw [serve_sign h hsecret ha]
  cases hinit : a.initialised with
  | false => simp [Attempt.Applies, hinit]
  | true =>
      cases hreach : a.reaches with
      | false => simp [Attempt.Applies, hinit, hreach, isSuccess]
      | true =>
          by_cases hagrees : a.Agrees skew
          · have happlies : a.Applies skew := ⟨hinit, hreach, hagrees⟩
            rw [if_pos hagrees, if_pos happlies]
            cases a.answered <;> simp [isSuccess]
          · have happlies : ¬ a.Applies skew := fun hap => hagrees hap.2.2
            rw [if_neg hagrees, if_neg happlies]
            cases a.answered <;> simp [isSuccess]

/-! ### Objects -/

theorem answer_put (path data : Bytes) :
    objects.answer (str "PUT") path data = { code := 200, objects := objects.put path data } :=
  if_pos rfl

theorem answer_delete (path data : Bytes) :
    objects.answer (str "DELETE") path data = { code := 204, objects := objects.delete path } := by
  have hput : str "DELETE" ≠ str "PUT" := by decide
  unfold Objects.answer
  rw [if_neg hput, if_pos rfl]

theorem answer_read {method : Bytes} (hmethod : method ≠ str "PUT" ∧ method ≠ str "DELETE")
    (path body : Bytes) :
    objects.answer method path body =
      (objects path).elim { code := 404, objects } fun data =>
        { code := 200, body := if method = str "GET" then data else [], objects } := by
  unfold Objects.answer
  rw [if_neg hmethod.1, if_neg hmethod.2]
  cases objects path <;> rfl

theorem put_put (objects : Objects) (path data : Bytes) :
    (objects.put path data).put path data = objects.put path data :=
  Function.update_idem ..

@[simp] theorem put_self (objects : Objects) (path data : Bytes) :
    objects.put path data path = some data :=
  Function.update_self ..

theorem put_of_ne {path other : Bytes} (h : other ≠ path) (objects : Objects) (data : Bytes) :
    objects.put path data other = objects other :=
  Function.update_of_ne h ..

/-! ### Uploads -/

/-- The attempts that are made unless one of them succeeds. -/
def tries (attempts : List Attempt) : List Attempt := attempts.takeWhile (·.initialised)

theorem tries_cons {a : Attempt} {attempts : List Attempt} (h : a.initialised = true) :
    tries (a :: attempts) = a :: tries attempts :=
  List.takeWhile_cons_of_pos h

theorem call_put (h : cfg.Sound host) (hsecret : secretOf cfg.accessKey = some cfg.secretKey)
    (hplain : Percent.Plain (cfg.object key)) (ha : a.Timed) (objects : Objects) :
    call S (store S secretOf skew) cfg (str "PUT") key data extra a objects =
      if a.Applies skew then (a.answered, objects.put (cfg.object key) data) else (false, objects) := by
  rw [call_eq h hsecret hplain ha, answer_put]
  simp [isSuccess]

/-- An upload succeeds if one of its attempts has its effect and is answered, and leaves the object if
one of them has its effect. -/
theorem uploadLoop_eq (h : cfg.Sound host) (hsecret : secretOf cfg.accessKey = some cfg.secretKey)
    (hplain : Percent.Plain (cfg.object key)) {attempts : List Attempt}
    (htimed : ∀ a ∈ attempts, a.Timed) (objects : Objects) :
    uploadLoop S (store S secretOf skew) cfg key data contentType attempts objects =
      (decide (∃ a ∈ tries attempts, a.Applies skew ∧ a.answered = true),
        if ∃ a ∈ tries attempts, a.Applies skew then objects.put (cfg.object key) data
        else objects) := by
  induction attempts generalizing objects with
  | nil => simp [uploadLoop, tries]
  | cons a attempts ih =>
      have hrest := ih fun b hb => htimed b (List.mem_cons_of_mem a hb)
      cases hinit : a.initialised with
      | false => simp [uploadLoop, tries, hinit]
      | true =>
          have hput : call S (store S secretOf skew) cfg (str "PUT") key data
              (contentTypeHeader contentType) a objects = _ :=
            call_put h hsecret hplain (htimed a List.mem_cons_self) objects
          rw [tries_cons hinit]
          unfold uploadLoop
          rw [hinit, if_neg (by simp), hput]
          simp only [List.exists_mem_cons_iff]
          by_cases happlies : a.Applies skew
          · cases hanswered : a.answered with
            | true => simp [happlies]
            | false => simp [happlies, hrest, put_put]
          · simp [happlies, hrest]

theorem precheck_sound (h : cfg.Sound host) : precheck cfg false = none := by
  simp [precheck, enabled_sound h, h.atR2, bucket_ne_nil h]

/-- An upload succeeds if one of its attempts has its effect and is answered, and leaves the object if
one of them has its effect. -/
theorem upload_eq (h : cfg.Sound host) (hsecret : secretOf cfg.accessKey = some cfg.secretKey)
    (hplain : Percent.Plain (cfg.object key)) {attempts : Nat → Attempt}
    (htimed : ∀ i, (attempts i).Timed) (objects : Objects) :
    upload S (store S secretOf skew) cfg false key data contentType attempts objects =
      (decide (∃ a ∈ tries ((List.range kMaxAttempts).map attempts), a.Applies skew ∧ a.answered = true),
        if ∃ a ∈ tries ((List.range kMaxAttempts).map attempts), a.Applies skew then
          objects.put (cfg.object key) data
        else objects) := by
  unfold upload
  rw [precheck_sound h]
  apply uploadLoop_eq h hsecret hplain
  intro a ha
  obtain ⟨i, -, rfl⟩ := List.mem_map.mp ha
  exact htimed i

/-- A look succeeds if it is answered and the object is there. -/
theorem verify_eq (h : cfg.Sound host) (hsecret : secretOf cfg.accessKey = some cfg.secretKey)
    (hplain : Percent.Plain (cfg.object key)) (ha : a.Timed) (objects : Objects) :
    verify S (store S secretOf skew) cfg false key a objects =
      (decide (a.Applies skew ∧ a.answered = true ∧ (objects (cfg.object key)).isSome), objects) := by
  have hhead : str "HEAD" ≠ str "PUT" ∧ str "HEAD" ≠ str "DELETE" := by decide
  unfold verify
  rw [precheck_sound h]
  dsimp only
  rw [call_eq h hsecret hplain ha, answer_read hhead]
  by_cases happlies : a.Applies skew
  · cases objects (cfg.object key) <;> simp [happlies, isSuccess]
  · simp [happlies]

/-- A removal takes the object away if the request has its effect, and succeeds if it is answered. -/
theorem remove_eq (h : cfg.Sound host) (hsecret : secretOf cfg.accessKey = some cfg.secretKey)
    (hplain : Percent.Plain (cfg.object key)) (ha : a.Timed) (objects : Objects) :
    remove S (store S secretOf skew) cfg false key a objects =
      if a.Applies skew then (a.answered, objects.delete (cfg.object key)) else (false, objects) := by
  unfold remove
  rw [precheck_sound h]
  dsimp only
  rw [call_eq h hsecret hplain ha, answer_delete]
  simp [isSuccess]

/-! ### Main result -/

/-- A presigned URL that is opened in its term is answered with the object. -/
theorem serve_presignUrl (h : cfg.Sound host) (hsecret : secretOf cfg.accessKey = some cfg.secretKey)
    (hplain : Percent.Plain (cfg.object key)) (hnow : 0 ≤ now ∧ now ≤ 9223372037) {expires : Int32}
    {later : Int} (hlater : now - skew ≤ later ∧ later ≤ now + termOf expires) (objects : Objects) :
    (requestOf (str "GET") (presignUrl S cfg now key expires)).map
        (serve (store S secretOf skew) later · objects) =
      some (objects.answer (str "GET") (cfg.object key) []) := by
  have hpath : Percent.decode (Percent.encode Percent.isPathByte (cfg.object key)) = cfg.object key :=
    Percent.decode_encode (by decide) _
  rw [requestOf_presignUrl h hnow hplain, Option.map_some, serve,
    (admits_presigned h hsecret hnow).mpr hlater, Bool.true_or, if_pos rfl]
  unfold presign
  dsimp only
  rw [hpath]

end ExamVan.R2
