import ExamVan.Lib.SigV4

/-!
# Signatures in a header

A signed request carries its signature in the `Authorization` header. The signature covers the hash of
the body, and the service serves the request while the two clocks agree.
-/

namespace SigV4

open ByteString

def contentHashName : Bytes := str "x-amz-content-sha256"

def amzDateName : Bytes := str "x-amz-date"

def authorizationName : Bytes := str "authorization"

def credentialField : Bytes := str "Credential"

def signedHeadersField : Bytes := str "SignedHeaders"

def signatureField : Bytes := str "Signature"

def readField (text : Bytes) : Parameter :=
  let field := text.dropWhile (· = chr ' ')
  (field.takeWhile (· ≠ chr '='), (field.dropWhile (· ≠ chr '=')).tail)

/-- The fields behind the name of the algorithm. -/
def readFields (text : Bytes) : List Parameter :=
  ((text.drop (algorithm.length + 1)).splitOn (chr ',')).map readField

def authorization (key names signature : Bytes) (scope : Scope) : Bytes :=
  algorithm ++ chr ' ' :: (credentialField ++ chr '=' :: (credential key scope ++ str ", " ++
    (signedHeadersField ++ chr '=' :: (names ++ str ", " ++ (signatureField ++ chr '=' :: signature)))))

/-- The canonical request that a request with an `Authorization` header stands for. -/
def authorizedCanonical (req : Request) (headers : List Parameter) (payload : Bytes) : Canonical where
  method := req.method
  uri := canonicalUri req.path
  query := canonicalQuery (parameters req.query)
  headers := headers
  payload := payload

/-- A signed request as the service reads it. -/
structure Authorized where
  stamp : Bytes
  time : Int
  scope : Scope
  secret : Bytes
  headers : List Parameter
  payload : Bytes
  signature : Bytes

namespace Service

variable (svc : Service)

def readAuthorized (req : Request) : Option Authorized := do
  let text ← get req.headers authorizationName
  let fields := readFields text
  let (key, scope) ← (get fields credentialField).bind readCredential
  let secret ← svc.secretOf key
  let names ← get fields signedHeadersField
  let headers ← signedHeaders req.headers names
  let stamp ← get req.headers amzDateName
  let time ← svc.readStamp stamp
  let payload ← get req.headers contentHashName
  let signature ← get fields signatureField
  if algorithm ++ [chr ' '] <+: text ∧ scope = ⟨stamp.take 8, svc.region, str "s3"⟩ ∧
      hostName ∈ headers.map Prod.fst ∧ contentHashName ∈ headers.map Prod.fst ∧
      amzDateName ∈ headers.map Prod.fst ∧ payload = hex (svc.suite.hash req.body) then
    some { stamp, time, scope, secret, headers, payload, signature }
  else none

def admitsAuthorized (now : Int) (req : Request) : Bool :=
  match svc.readAuthorized req with
  | none => false
  | some p => p.time - svc.skew ≤ now && now ≤ p.time + svc.skew &&
      p.signature = svc.suite.signature p.secret p.stamp p.scope
        (authorizedCanonical req p.headers p.payload)

end Service

def authorizedNames : Bytes := str "host;x-amz-content-sha256;x-amz-date"

def authorizedHeaders (host payload stamp : Bytes) : List Parameter :=
  [(hostName, host), (contentHashName, payload), (amzDateName, stamp)]

def signCanonical (method host object payload stamp : Bytes) : Canonical where
  method := method
  uri := Percent.encode Percent.isPathByte object
  query := []
  headers := authorizedHeaders host payload stamp
  payload := payload

/-- The value of the `Authorization` header. -/
def signAuthorization (S : Suite) (key secret stamp region method host object payload : Bytes) : Bytes :=
  let scope : Scope := ⟨stamp.take 8, region, str "s3"⟩
  authorization key authorizedNames
    (S.signature secret stamp scope (signCanonical method host object payload stamp)) scope

/-- A request that carries its signature. -/
def sign (S : Suite) (key secret stamp region method host object body : Bytes)
    (extra : List Parameter) : Request where
  method := method
  path := Percent.encode Percent.isPathByte object
  headers := (hostName, host) ::
    (authorizationName, signAuthorization S key secret stamp region method host object
      (hex (S.hash body))) ::
    (amzDateName, stamp) :: (contentHashName, hex (S.hash body)) :: extra
  body := body

section

variable {svc : Service} {key secret stamp host object method names signature : Bytes}
  {time now : Int} {scope : Scope}

theorem readField_eq {name value : Bytes} (hname : chr '=' ∉ name)
    (hhead : (name ++ [chr '=']).head? ≠ some (chr ' ')) :
    readField (name ++ chr '=' :: value) = (name, value) := by
  have hsplit := takeWhile_ne_append hname value
  have hdrop : (name ++ chr '=' :: value).dropWhile (· = chr ' ') = name ++ chr '=' :: value := by
    cases name with
    | nil => exact List.dropWhile_cons_of_neg (by decide)
    | cons c name =>
        apply List.dropWhile_cons_of_neg
        simpa using hhead
  unfold readField
  dsimp only
  rw [hdrop, hsplit.1, hsplit.2, List.tail_cons]

theorem readField_blank (text : Bytes) : readField (chr ' ' :: text) = readField text := by
  unfold readField
  rw [List.dropWhile_cons_of_pos (by simp)]

theorem readFields_authorization (hcredential : chr ',' ∉ credential key scope)
    (hnames : chr ',' ∉ names) (hsignature : chr ',' ∉ signature) :
    readFields (authorization key names signature scope) =
      [(credentialField, credential key scope), (signedHeadersField, names),
        (signatureField, signature)] := by
  have hfields : (authorization key names signature scope).drop (algorithm.length + 1) =
      [chr ','].intercalate
        [credentialField ++ chr '=' :: credential key scope,
          chr ' ' :: (signedHeadersField ++ chr '=' :: names),
          chr ' ' :: (signatureField ++ chr '=' :: signature)] := by
    have hcomma : str ", " = [chr ',', chr ' '] := by decide
    rw [authorization, ← List.drop_drop, List.drop_left]
    simp [List.intercalate, hcomma]
  unfold readFields
  rw [hfields, List.splitOn_intercalate]
  · simp only [List.map_cons, List.map_nil, readField_blank]
    rw [readField_eq (by decide) (by decide), readField_eq (by decide) (by decide),
      readField_eq (by decide) (by decide)]
  · rw [List.forall_mem_cons, List.forall_mem_cons, List.forall_mem_singleton]
    simp only [List.mem_append, List.mem_cons, not_or]
    exact ⟨⟨by decide, by decide, hcredential⟩, ⟨by decide, by decide, by decide, hnames⟩, by decide,
      by decide, by decide, hsignature⟩
  · exact List.cons_ne_nil _ _

theorem authorizedCanonical_sign (extra : List Parameter) (body payload : Bytes) :
    authorizedCanonical
        { method := method
          path := Percent.encode Percent.isPathByte object
          headers := extra
          body := body } (authorizedHeaders host payload stamp) payload =
      signCanonical method host object payload stamp := by
  have hquery : canonicalQuery (parameters []) = [] := by decide
  unfold authorizedCanonical signCanonical
  dsimp only
  rw [hquery, canonicalUri, Percent.decode_encode (by decide)]

theorem signedHeaders_sign {payload text : Bytes} (rest : List Parameter) :
    signedHeaders ((hostName, host) :: (authorizationName, text) :: (amzDateName, stamp) ::
        (contentHashName, payload) :: rest) authorizedNames =
      some (authorizedHeaders host payload stamp) := by
  have hnames : authorizedNames.splitOn (chr ';') = [hostName, contentHashName, amzDateName] := by
    decide
  unfold signedHeaders authorizedHeaders
  rw [hnames]
  simp +decide [get]

theorem get_fields (x y z : Bytes) :
    get [(credentialField, x), (signedHeadersField, y), (signatureField, z)] credentialField = some x ∧
      get [(credentialField, x), (signedHeadersField, y), (signatureField, z)] signedHeadersField =
        some y ∧
      get [(credentialField, x), (signedHeadersField, y), (signatureField, z)] signatureField =
        some z := by
  simp +decide [get]

theorem readAuthorized_sign (hsecret : svc.secretOf key = some secret)
    (hstamp : svc.readStamp stamp = some time) (hkey : chr '/' ∉ key ∧ chr ',' ∉ key)
    (hdate : chr '/' ∉ stamp.take 8 ∧ chr ',' ∉ stamp.take 8)
    (hregion : chr '/' ∉ svc.region ∧ chr ',' ∉ svc.region) (body : Bytes) (extra : List Parameter) :
    svc.readAuthorized (sign svc.suite key secret stamp svc.region method host object body extra) =
      some
        { stamp, time, secret
          scope := ⟨stamp.take 8, svc.region, str "s3"⟩
          headers := authorizedHeaders host (hex (svc.suite.hash body)) stamp
          payload := hex (svc.suite.hash body)
          signature := svc.suite.signature secret stamp ⟨stamp.take 8, svc.region, str "s3"⟩
            (signCanonical method host object (hex (svc.suite.hash body)) stamp) } := by
  have hcredential := readCredential_credential ⟨stamp.take 8, svc.region, str "s3"⟩
    hkey.1 hdate.1 hregion.1 (by decide : chr '/' ∉ str "s3")
  have hcomma : chr ',' ∉ credential key ⟨stamp.take 8, svc.region, str "s3"⟩ := by
    simp only [credential, Scope.text, List.mem_append, List.mem_cons, not_or]
    exact ⟨hkey.2, by decide, hdate.2, by decide, hregion.2, by decide, by decide, by decide, by decide⟩
  have hsignature : chr ',' ∉ svc.suite.signature secret stamp ⟨stamp.take 8, svc.region, str "s3"⟩
      (signCanonical method host object (hex (svc.suite.hash body)) stamp) := by
    intro hmem
    exact absurd (isUnreserved_of_mem_hex hmem) (by decide)
  have hfields : readFields (signAuthorization svc.suite key secret stamp svc.region method host object
      (hex (svc.suite.hash body))) = _ :=
    readFields_authorization hcomma (by decide : chr ',' ∉ authorizedNames) hsignature
  have hfirst : algorithm ++ [chr ' '] <+: signAuthorization svc.suite key secret stamp svc.region
      method host object (hex (svc.suite.hash body)) := by
    unfold signAuthorization authorization
    rw [List.append_cons]
    exact List.prefix_append _ _
  have hheaders : signedHeaders
      (sign svc.suite key secret stamp svc.region method host object body extra).headers
      authorizedNames = some (authorizedHeaders host (hex (svc.suite.hash body)) stamp) :=
    signedHeaders_sign _
  have htext : get (sign svc.suite key secret stamp svc.region method host object body extra).headers
      authorizationName = some (signAuthorization svc.suite key secret stamp svc.region
        method host object (hex (svc.suite.hash body))) := by
    simp +decide [sign, get]
  have hdate : get (sign svc.suite key secret stamp svc.region method host object body extra).headers
      amzDateName = some stamp := by
    simp +decide [sign, get]
  have hpayload : get (sign svc.suite key secret stamp svc.region method host object body extra).headers
      contentHashName = some (hex (svc.suite.hash body)) := by
    simp +decide [sign, get]
  have hnames : hostName ∈ (authorizedHeaders host (hex (svc.suite.hash body)) stamp).map Prod.fst ∧
      contentHashName ∈ (authorizedHeaders host (hex (svc.suite.hash body)) stamp).map Prod.fst ∧
      amzDateName ∈ (authorizedHeaders host (hex (svc.suite.hash body)) stamp).map Prod.fst := by
    simp [authorizedHeaders]
  unfold Service.readAuthorized
  simp only [bind, htext, hdate, hpayload, hfields, Option.bind_some]
  rw [(get_fields _ _ _).1, (get_fields _ _ _).2.1, (get_fields _ _ _).2.2]
  simp only [Option.bind_some, hcredential, hsecret, hstamp]
  rw [hheaders, Option.bind_some, if_pos ⟨hfirst, trivial, hnames.1, hnames.2.1, hnames.2.2, rfl⟩]

/-- A signed request is served while the clocks of the signer and the service agree. -/
theorem admitsAuthorized_sign_iff (svc : Service) (hsecret : svc.secretOf key = some secret)
    (hstamp : svc.readStamp stamp = some time) (hkey : chr '/' ∉ key ∧ chr ',' ∉ key)
    (hdate : chr '/' ∉ stamp.take 8 ∧ chr ',' ∉ stamp.take 8)
    (hregion : chr '/' ∉ svc.region ∧ chr ',' ∉ svc.region) (body : Bytes) (extra : List Parameter) :
    svc.admitsAuthorized now
        (sign svc.suite key secret stamp svc.region method host object body extra) = true ↔
      time - svc.skew ≤ now ∧ now ≤ time + svc.skew := by
  have hcanonical : authorizedCanonical
      (sign svc.suite key secret stamp svc.region method host object body extra)
      (authorizedHeaders host (hex (svc.suite.hash body)) stamp) (hex (svc.suite.hash body)) =
        signCanonical method host object (hex (svc.suite.hash body)) stamp :=
    authorizedCanonical_sign _ body _
  rw [Service.admitsAuthorized, readAuthorized_sign hsecret hstamp hkey hdate hregion]
  dsimp only
  rw [hcanonical]
  simp

end

end SigV4
