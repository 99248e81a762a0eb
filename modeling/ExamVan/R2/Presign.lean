import ExamVan.Helpers.IsoUtc
import ExamVan.Lib.Sha256
import ExamVan.Lib.SigV4

/-!
# Presigned URLs of the object store

`presign_url` signs the reading of one object for a term of seconds. The URL is given to a browser,
and the store serves what the browser then sends.
-/

namespace ExamVan.R2

open ByteString Calendar Helpers SigV4

structure R2Config where
  accessKey : Bytes
  secretKey : Bytes
  endpoint : Bytes
  bucket : Bytes

def R2Config.enabled (cfg : R2Config) : Bool :=
  cfg.accessKey ≠ [] && cfg.secretKey ≠ [] && cfg.endpoint ≠ [] && cfg.bucket ≠ []

def storageDomain : Bytes := str "r2.cloudflarestorage.com"

/-- The check of the endpoint that precedes every request. -/
def R2Config.atR2 (cfg : R2Config) : Bool := (findSub storageDomain cfg.endpoint).isSome

/-- `uri_encode` -/
def uriEncode (s : Bytes) : Bytes := Percent.encode Percent.isUnreserved s

/-- The loop over a key, which keeps its slashes. -/
def encodedKey (key : Bytes) : Bytes := Percent.encode Percent.isPathByte key

def hostOf (endpoint : Bytes) : Bytes :=
  ((findSub (str "://") endpoint).elim endpoint (·.drop 3)).takeWhile (· ≠ chr '/')

/-- `region_for_endpoint`: both branches return the same. -/
def regionForEndpoint (endpoint : Bytes) : Bytes :=
  if (findSub storageDomain (hostOf endpoint)).isSome then str "auto" else str "auto"

def endpointNoSlash (endpoint : Bytes) : Bytes :=
  if endpoint.getLast? = some (chr '/') then endpoint.dropLast else endpoint

/-- `strftime` with `%Y%m%dT%H%M%SZ` on `gmtime_r` -/
def dateFull (now : Int) : Bytes :=
  let t := civil now
  intText t.year ++ (twoDigits t.month ++ (twoDigits t.day ++ chr 'T' :: (twoDigits t.hour ++
    (twoDigits t.minute ++ (twoDigits t.second ++ [chr 'Z'])))))

variable (S : Suite)

def sha256Hex (s : Bytes) : Bytes := hex (S.hash s)

/-- The four keyed hashes that end in the signing key, and the signature. -/
def signHex (secretKey date8 region stringToSign : Bytes) : Bytes :=
  let kDate := S.mac (str "AWS4" ++ secretKey) date8
  let kRegion := S.mac kDate region
  let kService := S.mac kRegion (str "s3")
  let kSigning := S.mac kService (str "aws4_request")
  hex (S.mac kSigning stringToSign)

/-- A term that is no term of a presigned URL is replaced by an hour. -/
def effectiveExpires (expiresSeconds : Int32) : Int32 :=
  if expiresSeconds ≤ 0 ∨ expiresSeconds > 7 * 24 * 3600 then 3600 else expiresSeconds

/-- `presign_url` -/
def presignUrl (cfg : R2Config) (now : Int) (key : Bytes) (expiresSeconds : Int32) : Bytes :=
  if !cfg.enabled then [] else if cfg.bucket = [] then [] else if !cfg.atR2 then []
  else
    let expires := effectiveExpires expiresSeconds
    let date8 := (dateFull now).take 8
    let region := regionForEndpoint cfg.endpoint
    let credential := uriEncode (cfg.accessKey ++ str "/" ++ date8 ++ str "/" ++ region ++
      str "/s3/aws4_request")
    let host := hostOf cfg.endpoint
    let canonicalUri := str "/" ++ cfg.bucket ++ str "/" ++ encodedKey key
    let canonicalQs := str "X-Amz-Algorithm=AWS4-HMAC-SHA256&X-Amz-Credential=" ++ credential ++
      str "&X-Amz-Date=" ++ dateFull now ++ str "&X-Amz-Expires=" ++ intText expires.toInt ++
      str "&X-Amz-SignedHeaders=host"
    let canonicalHeaders := str "host:" ++ host ++ str "\n"
    let canonicalRequest := str "GET\n" ++ canonicalUri ++ str "\n" ++ canonicalQs ++ str "\n" ++
      canonicalHeaders ++ str "\n" ++ str "host" ++ str "\n" ++ str "UNSIGNED-PAYLOAD"
    let stringToSign := str "AWS4-HMAC-SHA256\n" ++ dateFull now ++ str "\n" ++ date8 ++ str "/" ++
      region ++ str "/s3/aws4_request\n" ++ sha256Hex S canonicalRequest
    endpointNoSlash cfg.endpoint ++ str "/" ++ cfg.bucket ++ str "/" ++ encodedKey key ++ str "?" ++
      canonicalQs ++ str "&X-Amz-Signature=" ++ signHex S cfg.secretKey date8 region stringToSign

/-- `object_key_for_exam` -/
def objectKeyForExam (examId : Int32) (filename : Bytes) : Bytes :=
  str "exams/" ++ intText examId.toInt ++ str "/" ++ filename

/-- `object_key_pdf_legacy` -/
def objectKeyPdfLegacy (filename : Bytes) : Bytes := str "pdfs/" ++ filename

/-- `object_key_for_app` -/
def objectKeyForApp (version flavor : Bytes) : Bytes :=
  str "apps/android/" ++ version ++ str "/EXAMVAN-v" ++ version ++ str "-" ++ flavor ++ str ".apk"

/-! ### The store -/

/-- A stamp that the store reads: all digits, a `T` and a `Z`. -/
def readStamp (s : Bytes) : Option Int :=
  if s.all fun c => isDigit c || c = chr 'T' || c = chr 'Z' then do
    let (year, s) ← field 4 0 9999 s
    let (month, s) ← field 2 1 12 s
    let (day, s) ← field 2 1 31 s
    let (hour, s) ← field 2 0 23 (← literal (chr 'T') s)
    let (minute, s) ← field 2 0 59 s
    let (second, s) ← field 2 0 59 s
    let rest ← literal (chr 'Z') s
    if rest = [] then return seconds ⟨year, month, day, hour, minute, second⟩ else none
  else none

theorem lined_of_readStamp (stamp : Bytes) (time : Int) (h : readStamp stamp = some time) :
    chr '\n' ∉ stamp := by
  unfold readStamp at h
  split_ifs at h with hbytes
  intro hmem
  exact absurd (List.all_eq_true.mp hbytes _ hmem) (by decide)

theorem auto_lined : chr '\n' ∉ str "auto" := by decide

/-- The store with the secrets of its access keys. -/
def store (secretOf : Bytes → Option Bytes) (skew : Nat) : Service where
  suite := S
  region := str "auto"
  region_lined := auto_lined
  secretOf := secretOf
  readStamp := readStamp
  stamp_lined := lined_of_readStamp
  skew := skew

/-! ### Requests for a URL -/

def isAuthorityEnd (c : UInt8) : Bool := c = chr '/' || c = chr '?' || c = chr '#'

/-- What a client sends for a URL: the host, the path without dot segments and the query. -/
def requestOf (method url : Bytes) : Option SigV4.Request :=
  if str "https://" <+: url then
    let rest := url.drop 8
    let target := (rest.dropWhile (!isAuthorityEnd ·)).takeWhile (· ≠ chr '#')
    some
      { method := method
        path := Percent.removeDots (target.takeWhile (· ≠ chr '?'))
        query := (target.dropWhile (· ≠ chr '?')).tail
        headers := [(hostName, rest.takeWhile (!isAuthorityEnd ·))] }
  else none

/-! ### What a URL asks for -/

def isHostByte (c : UInt8) : Bool :=
  (chr 'a' ≤ c && c ≤ chr 'z') || isDigit c || c = chr '-' || c = chr '.'

/-- A configuration for an account of the store: the endpoint is its host, with or without a slash. -/
structure R2Config.Sound (cfg : R2Config) (host : Bytes) : Prop where
  accessKey : cfg.accessKey ≠ [] ∧ chr '/' ∉ cfg.accessKey ∧ chr ',' ∉ cfg.accessKey
  secretKey : cfg.secretKey ≠ []
  endpoint : cfg.endpoint = str "https://" ++ host ∨ cfg.endpoint = str "https://" ++ host ++ str "/"
  host : host ≠ [] ∧ ∀ c ∈ host, isHostByte c = true
  atR2 : cfg.atR2 = true
  bucket : 3 ≤ cfg.bucket.length ∧ ∀ c ∈ cfg.bucket, Percent.isUnreserved c = true

/-- The path of an object. -/
def R2Config.object (cfg : R2Config) (key : Bytes) : Bytes :=
  str "/" ++ cfg.bucket ++ str "/" ++ key

variable {S} {cfg : R2Config} {host key : Bytes} {now : Int} {expires : Int32}

theorem notMem_host (h : cfg.Sound host) {c : UInt8} (hc : isHostByte c = false) : c ∉ host := by
  intro hmem
  rw [h.host.2 c hmem] at hc
  cases hc

theorem bucket_ne_nil (h : cfg.Sound host) : cfg.bucket ≠ [] := by
  intro hnil
  have hlength := h.bucket.1
  rw [hnil] at hlength
  exact absurd hlength (by decide)

theorem enabled_sound (h : cfg.Sound host) : cfg.enabled = true := by
  have hendpoint : cfg.endpoint ≠ [] := by
    rcases h.endpoint with heq | heq <;> rw [heq] <;> simp [h.host.1]
  simp [R2Config.enabled, h.accessKey.1, h.secretKey, hendpoint, bucket_ne_nil h]

theorem hostOf_endpoint (h : cfg.Sound host) : hostOf cfg.endpoint = host := by
  have hslash := notMem_host h (c := chr '/') (by decide)
  have hfind : ∀ rest, findSub (str "://") (str "https://" ++ rest) = some (str "://" ++ rest) := by
    intro rest
    have hscheme : str "https://" = str "https" ++ str "://" := by decide
    have hcolon : str "://" = chr ':' :: str "//" := by decide
    rw [hscheme, List.append_assoc, hcolon, findSub_append_of_notMem (by decide)]
    exact findSub_of_head (List.prefix_append _ _)
  have hdrop : ∀ rest, (str "://" ++ rest).drop 3 = rest := fun _ => rfl
  unfold hostOf
  rcases h.endpoint with heq | heq
  · rw [heq, hfind, Option.elim_some, hdrop]
    exact List.takeWhile_eq_self_iff.mpr fun c hc => decide_eq_true fun hcs => hslash (hcs ▸ hc)
  · rw [heq, List.append_assoc, hfind, Option.elim_some, hdrop]
    exact (takeWhile_ne_append hslash []).1

theorem endpointNoSlash_endpoint (h : cfg.Sound host) :
    endpointNoSlash cfg.endpoint = str "https://" ++ host := by
  have hlast : ∀ c ∈ host.getLast?, c ≠ chr '/' := by
    intro c hc hslash
    exact notMem_host h (c := chr '/') (by decide) (hslash ▸ List.mem_of_getLast? hc)
  unfold endpointNoSlash
  rcases h.endpoint with heq | heq
  · rw [heq, List.getLast?_append_of_ne_nil _ h.host.1, if_neg]
    intro hslash
    exact hlast _ hslash rfl
  · have hend : str "/" = [chr '/'] := by decide
    rw [heq, hend, List.getLast?_concat, if_pos rfl]
    exact List.dropLast_concat

theorem object_eq (cfg : R2Config) (key : Bytes) :
    cfg.object key = chr '/' :: (cfg.bucket ++ chr '/' :: key) := by
  have hslash : str "/" = [chr '/'] := by decide
  simp [R2Config.object, hslash]

theorem encode_object (h : cfg.Sound host) (key : Bytes) :
    Percent.encode Percent.isPathByte (cfg.object key) =
      chr '/' :: (cfg.bucket ++ chr '/' :: encodedKey key) := by
  have hslash : Percent.encodeByte Percent.isPathByte (chr '/') = [chr '/'] := by decide
  have hbucket : Percent.encode Percent.isPathByte cfg.bucket = cfg.bucket := by
    apply Percent.encode_eq_self
    intro c hc
    rw [Percent.isPathByte, h.bucket.2 c hc, Bool.or_true]
  rw [object_eq, Percent.encode_cons, Percent.encode_append, Percent.encode_cons, hslash, hbucket]
  rfl

theorem isUnreserved_of_isDigit {c : UInt8} (h : isDigit c = true) : Percent.isUnreserved c = true := by
  have hdigits : ∀ c : UInt8, isDigit c = true → Percent.isUnreserved c = true :=
    forall_byte (by decide)
  exact hdigits c h

theorem isDigit_of_mem_twoDigits {n : Int} (hn : 0 ≤ n ∧ n < 100) {c : UInt8} (h : c ∈ twoDigits n) :
    isDigit c = true := by
  rcases List.mem_cons.mp h with rfl | h
  · exact isDigit_digitByte (by omega)
  · rw [List.mem_singleton.mp h]
    exact isDigit_digitByte (by omega)

/-- A stamp between 1970 and the end of the clock of 64 bits. -/
theorem stampByte_of_mem_dateFull (hnow : 0 ≤ now ∧ now ≤ 9223372037) {c : UInt8}
    (h : c ∈ dateFull now) : isDigit c = true ∨ c = chr 'T' ∨ c = chr 'Z' := by
  have hvalid := valid_civil now
  have hyear := year_bounds (s := now) (by omega)
  have htext : intText (civil now).year = natText (civil now).year.natAbs := if_neg (by omega)
  have hmonth := hvalid.month
  have hday := hvalid.day
  have hhour := hvalid.hour
  have hminute := hvalid.minute
  have hsecond := hvalid.second
  unfold dateFull at h
  simp only [List.mem_append, List.mem_cons, htext, List.not_mem_nil, or_false] at h
  rcases h with h | h | h | rfl | h | h | h | rfl
  · exact .inl (isDigit_of_mem_natText h)
  · exact .inl (isDigit_of_mem_twoDigits (by omega) h)
  · exact .inl (isDigit_of_mem_twoDigits (by omega) h)
  · exact .inr (.inl rfl)
  · exact .inl (isDigit_of_mem_twoDigits (by omega) h)
  · exact .inl (isDigit_of_mem_twoDigits (by omega) h)
  · exact .inl (isDigit_of_mem_twoDigits (by omega) h)
  · exact .inr (.inr rfl)

theorem readStamp_dateFull (hnow : 0 ≤ now ∧ now ≤ 9223372037) :
    readStamp (dateFull now) = some now := by
  have hvalid := valid_civil now
  have hyear := year_bounds (s := now) (by omega)
  have hmonth : ((1 : Nat) : Int) ≤ (civil now).month ∧ (civil now).month ≤ (12 : Nat) := hvalid.month
  have hday : ((1 : Nat) : Int) ≤ (civil now).day ∧ (civil now).day ≤ (31 : Nat) := hvalid.day
  have hhour : ((0 : Nat) : Int) ≤ (civil now).hour ∧ (civil now).hour ≤ (23 : Nat) := hvalid.hour
  have hminute : ((0 : Nat) : Int) ≤ (civil now).minute ∧ (civil now).minute ≤ (59 : Nat) :=
    hvalid.minute
  have hsecond : ((0 : Nat) : Int) ≤ (civil now).second ∧ (civil now).second ≤ (59 : Nat) :=
    hvalid.second
  have hbytes : (dateFull now).all (fun c => isDigit c || c = chr 'T' || c = chr 'Z') = true := by
    rw [List.all_eq_true]
    intro c hc
    rcases stampByte_of_mem_dateFull hnow hc with h | h | h <;> simp [h]
  have hseconds := seconds_civil now
  unfold readStamp
  rw [if_pos hbytes]
  unfold dateFull
  dsimp only
  rw [field_year (by omega)]
  simp only [Option.bind_eq_bind, Option.bind_some, literal_cons,
    field_twoDigits hmonth.1 hmonth.2 (by decide), field_twoDigits hday.1 hday.2 (by decide),
    field_twoDigits hhour.1 hhour.2 (by decide), field_twoDigits hminute.1 hminute.2 (by decide),
    field_twoDigits hsecond.1 hsecond.2 (by decide)]
  rw [if_pos trivial]
  refine congrArg some (Eq.trans ?_ hseconds)
  congr 1
  have hcast : ∀ {m : Int}, 0 ≤ m → (m.toNat : Int) = m := Int.toNat_of_nonneg
  rw [hcast (by omega), hcast (by omega), hcast (by omega), hcast (by omega), hcast (by omega),
    hcast (by omega)]

/-- The term as a number of seconds. -/
def termOf (expiresSeconds : Int32) : Nat := (effectiveExpires expiresSeconds).toInt.toNat

theorem termOf_bounds (expires : Int32) : 1 ≤ termOf expires ∧ termOf expires ≤ maxTerm := by
  have hbounds : 1 ≤ (effectiveExpires expires).toInt ∧ (effectiveExpires expires).toInt ≤ 604800 := by
    unfold effectiveExpires
    split_ifs with h
    · decide
    · rw [not_or, Int32.not_le, gt_iff_lt, Int32.not_lt, Int32.lt_iff_toInt_lt, Int32.le_iff_toInt_le] at h
      have hzero : (0 : Int32).toInt = 0 := by decide
      have hweek : (7 * 24 * 3600 : Int32).toInt = 604800 := by decide
      rw [hzero, hweek] at h
      omega
  unfold termOf maxTerm
  omega

theorem encodedQuery (cfg : R2Config) (expires : Int32) (hnow : 0 ≤ now ∧ now ≤ 9223372037) (sig : Bytes)
    (hsig : ∀ c ∈ sig, Percent.isUnreserved c = true) :
    encodeParameters (presignParameters cfg.accessKey (dateFull now) (str "auto") (termOf expires)) =
        str "X-Amz-Algorithm=AWS4-HMAC-SHA256&X-Amz-Credential=" ++ uriEncode (cfg.accessKey ++ str "/" ++
          (dateFull now).take 8 ++ str "/" ++ str "auto" ++ str "/s3/aws4_request") ++
          str "&X-Amz-Date=" ++ dateFull now ++ str "&X-Amz-Expires=" ++
          intText (effectiveExpires expires).toInt ++ str "&X-Amz-SignedHeaders=host" ∧
      encodeParameters (presignParameters cfg.accessKey (dateFull now) (str "auto") (termOf expires) ++
          [(signatureName, sig)]) =
        encodeParameters (presignParameters cfg.accessKey (dateFull now) (str "auto") (termOf expires)) ++
          str "&X-Amz-Signature=" ++ sig := by
  have hplain : ∀ {text : Bytes}, (∀ c ∈ text, Percent.isUnreserved c = true) →
      Percent.encode Percent.isUnreserved text = text := fun h => Percent.encode_eq_self h
  have hnames : ∀ name ∈ [algorithmName, algorithm, credentialName, dateName, expiresName,
      signedHeadersName, hostName, signatureName], Percent.encode Percent.isUnreserved name = name := by
    decide
  simp only [List.forall_mem_cons, List.not_mem_nil, false_imp_iff, implies_true, and_true] at hnames
  obtain ⟨h1, h2, h3, h4, h5, h6, h7, h8⟩ := hnames
  have hstamp : Percent.encode Percent.isUnreserved (dateFull now) = dateFull now := by
    apply hplain
    intro c hc
    rcases stampByte_of_mem_dateFull hnow hc with h | rfl | rfl
    · exact isUnreserved_of_isDigit h
    · decide
    · decide
  have hterm : intText (effectiveExpires expires).toInt = natText (termOf expires) := by
    have hbounds := termOf_bounds expires
    unfold termOf at hbounds ⊢
    rw [intText, if_neg (by omega)]
    congr 1
    omega
  have hnumber : Percent.encode Percent.isUnreserved (natText (termOf expires)) =
      natText (termOf expires) :=
    hplain fun c hc => isUnreserved_of_isDigit (isDigit_of_mem_natText hc)
  have hcredential : credential cfg.accessKey ⟨(dateFull now).take 8, str "auto", str "s3"⟩ =
      cfg.accessKey ++ str "/" ++ (dateFull now).take 8 ++ str "/" ++ str "auto" ++
        str "/s3/aws4_request" := by
    have hslash : str "/" = [chr '/'] := by decide
    have hlast : str "/s3/aws4_request" = chr '/' :: (str "s3" ++ chr '/' :: terminator) := by decide
    simp [credential, Scope.text, hslash, hlast]
  have hlead : str "X-Amz-Algorithm=AWS4-HMAC-SHA256&X-Amz-Credential=" =
      algorithmName ++ chr '=' :: (algorithm ++ chr '&' :: (credentialName ++ [chr '='])) := by decide
  have hdate : str "&X-Amz-Date=" = chr '&' :: (dateName ++ [chr '=']) := by decide
  have hexpires : str "&X-Amz-Expires=" = chr '&' :: (expiresName ++ [chr '=']) := by decide
  have hsigned : str "&X-Amz-SignedHeaders=host" =
      chr '&' :: (signedHeadersName ++ chr '=' :: hostName) := by decide
  have hsignature : str "&X-Amz-Signature=" = chr '&' :: (signatureName ++ [chr '=']) := by decide
  constructor
  · simp only [presignParameters, encodeParameters_cons, encodeParameters_singleton, encodeParameter,
      hcredential, h1, h2, h3, h4, h5, h6, h7, hstamp, hnumber]
    rw [hterm, hlead, hdate, hexpires, hsigned, uriEncode]
    simp only [List.append_assoc, List.cons_append, List.nil_append]
  · simp only [presignParameters, List.cons_append, List.nil_append, encodeParameters_cons,
      encodeParameters_singleton, encodeParameter, h8, hplain hsig]
    rw [hsignature]
    simp only [List.append_assoc, List.cons_append, List.nil_append]

/-- What `presign_url` signs is the canonical request of the reading of the object. -/
theorem presignUrl_eq (h : cfg.Sound host) (hnow : 0 ≤ now ∧ now ≤ 9223372037) (key : Bytes)
    (expires : Int32) :
    presignUrl S cfg now key expires =
      str "https://" ++ (host ++ (chr '/' :: (cfg.bucket ++ chr '/' :: encodedKey key) ++ chr '?' ::
        (presign S cfg.accessKey cfg.secretKey (dateFull now) (str "auto") host (cfg.object key)
          (termOf expires)).query)) := by
  have hregion : regionForEndpoint cfg.endpoint = str "auto" := ite_self _
  have hpath := encode_object h key
  have hquery := encodedQuery cfg expires hnow
    (presignSignature S cfg.accessKey cfg.secretKey (dateFull now) (str "auto") host (cfg.object key)
      (termOf expires)) fun c hc => isUnreserved_of_mem_hex hc
  have hcanonical : (presignCanonical cfg.accessKey (dateFull now) (str "auto") host (cfg.object key)
      (termOf expires)).text = str "GET\n" ++ (str "/" ++ cfg.bucket ++ str "/" ++ encodedKey key) ++
        str "\n" ++ encodeParameters (presignParameters cfg.accessKey (dateFull now) (str "auto")
          (termOf expires)) ++ str "\n" ++ (str "host:" ++ host ++ str "\n") ++ str "\n" ++
            str "host" ++ str "\n" ++ str "UNSIGNED-PAYLOAD" := by
    have hline : str "\n" = [chr '\n'] := by decide
    have hslash : str "/" = [chr '/'] := by decide
    have hget : str "GET\n" = str "GET" ++ [chr '\n'] := by decide
    have hname : str "host:" = hostName ++ [chr ':'] := by decide
    simp [Canonical.text, Canonical.headerText, Canonical.signedNames, presignCanonical, hpath, hline,
      hslash, hget, hname, hostName, unsignedPayload]
  have hsigned : signHex S cfg.secretKey ((dateFull now).take 8) (str "auto")
      (str "AWS4-HMAC-SHA256\n" ++ dateFull now ++ str "\n" ++ (dateFull now).take 8 ++ str "/" ++
        str "auto" ++ str "/s3/aws4_request\n" ++ sha256Hex S (presignCanonical cfg.accessKey
          (dateFull now) (str "auto") host (cfg.object key) (termOf expires)).text) =
      presignSignature S cfg.accessKey cfg.secretKey (dateFull now) (str "auto") host (cfg.object key)
        (termOf expires) := by
    have hline : str "\n" = [chr '\n'] := by decide
    have hslash : str "/" = [chr '/'] := by decide
    have hlead : str "AWS4-HMAC-SHA256\n" = algorithm ++ [chr '\n'] := by decide
    have hlast : str "/s3/aws4_request\n" = chr '/' :: (str "s3" ++ chr '/' :: (terminator ++
        [chr '\n'])) := by decide
    have hterminator : str "aws4_request" = terminator := rfl
    simp [signHex, presignSignature, Suite.signature, Suite.signingKey, Suite.stringToSign, Scope.text,
      sha256Hex, hline, hslash, hlead, hlast, hterminator]
  have hslash : str "/" = [chr '/'] := by decide
  have hmark : str "?" = [chr '?'] := by decide
  unfold presignUrl
  rw [enabled_sound h, h.atR2, if_neg (by simp), if_neg (bucket_ne_nil h), if_neg (by simp)]
  dsimp only
  rw [hregion, hostOf_endpoint h, endpointNoSlash_endpoint h, ← hquery.1, ← hcanonical, hsigned, presign,
    hquery.2]
  simp [hslash, hmark]

/-- What a client sends for a URL whose path has no dot segments. -/
theorem requestOf_https (h : cfg.Sound host) (method : Bytes) {path rest : Bytes}
    (hpath : path.head? = some (chr '/')) (hmark : chr '?' ∉ path) (hhash : chr '#' ∉ path ++ rest)
    (hrest : rest.head?.all (· = chr '?')) (hplain : Percent.Plain path) :
    requestOf method (str "https://" ++ (host ++ (path ++ rest))) =
      some { method, path, query := rest.tail, headers := [(hostName, host)] } := by
  have hauthority : ∀ c ∈ host, (!isAuthorityEnd c) = true := by
    have hbyte : ∀ c : UInt8, isHostByte c = true → (!isAuthorityEnd c) = true :=
      forall_byte (by decide)
    exact fun c hc => hbyte c (h.host.2 c hc)
  have hslash : isAuthorityEnd (chr '/') = true := by decide
  have hdrop : ∀ text, (str "https://" ++ text).drop 8 = text := fun _ => rfl
  have htarget : (host ++ (path ++ rest)).takeWhile (!isAuthorityEnd ·) = host ∧
      (host ++ (path ++ rest)).dropWhile (!isAuthorityEnd ·) = path ++ rest := by
    cases path with
    | nil => simp at hpath
    | cons c path =>
        rw [List.head?_cons, Option.some_inj] at hpath
        rw [List.takeWhile_append_of_pos hauthority, List.dropWhile_append_of_pos hauthority,
          List.cons_append, List.takeWhile_cons_of_neg (by simp [hpath, hslash]), List.append_nil,
          List.dropWhile_cons_of_neg (by simp [hpath, hslash])]
        exact ⟨rfl, rfl⟩
  have hfragment : (path ++ rest).takeWhile (· ≠ chr '#') = path ++ rest :=
    List.takeWhile_eq_self_iff.mpr fun c hc => decide_eq_true fun heq => hhash (heq ▸ hc)
  have hsplit : (path ++ rest).takeWhile (· ≠ chr '?') = path ∧
      (path ++ rest).dropWhile (· ≠ chr '?') = rest := by
    cases rest with
    | nil =>
        have hkept : ∀ c ∈ path, decide (c ≠ chr '?') = true := fun c hc =>
          decide_eq_true fun heq => hmark (heq ▸ hc)
        rw [List.append_nil]
        exact ⟨List.takeWhile_eq_self_iff.mpr hkept, List.dropWhile_eq_nil_iff.mpr hkept⟩
    | cons c rest =>
        have hc : c = chr '?' := by simpa using hrest
        rw [hc]
        exact takeWhile_ne_append hmark rest
  rw [requestOf, if_pos (List.prefix_append _ _), hdrop]
  dsimp only
  rw [htarget.1, htarget.2, hfragment, hsplit.1, hsplit.2, Percent.removeDots_of_plain hplain]

theorem notMem_path {c : UInt8} (hc : Percent.isPathByte c = false ∧ Percent.isUnreserved c = false ∧
    c ≠ chr '%') (key : Bytes) : c ∉ Percent.encode Percent.isPathByte (cfg.object key) :=
  Percent.notMem_encode hc.1 hc.2.1 hc.2.2 _

/-- The request for a presigned URL is the one that has been signed. -/
theorem requestOf_presignUrl (h : cfg.Sound host) (hnow : 0 ≤ now ∧ now ≤ 9223372037)
    (hplain : Percent.Plain (cfg.object key)) :
    requestOf (str "GET") (presignUrl S cfg now key expires) =
      some (presign S cfg.accessKey cfg.secretKey (dateFull now) (str "auto") host (cfg.object key)
        (termOf expires)) := by
  have hhash : chr '#' ∉ Percent.encode Percent.isPathByte (cfg.object key) ++ chr '?' ::
      (presign S cfg.accessKey cfg.secretKey (dateFull now) (str "auto") host (cfg.object key)
        (termOf expires)).query := by
    rw [List.mem_append, List.mem_cons]
    rintro (hmem | hmem | hmem)
    · exact notMem_path (by decide) key hmem
    · exact absurd hmem (by decide)
    · exact notMem_encodeParameters (by decide) (by decide) (by decide) (by decide) _ hmem
  rw [presignUrl_eq h hnow, ← encode_object h key,
    requestOf_https h _ (by rw [encode_object h]; rfl) (notMem_path (by decide) key) hhash rfl
      (Percent.plain_encode hplain)]
  rfl

/-! ### Main results -/

variable {secretOf : Bytes → Option Bytes} {skew : Nat} {later : Int}

theorem notMem_date (hnow : 0 ≤ now ∧ now ≤ 9223372037) {c : UInt8}
    (hc : isDigit c = false ∧ c ≠ chr 'T' ∧ c ≠ chr 'Z') : c ∉ (dateFull now).take 8 := by
  intro hmem
  rcases stampByte_of_mem_dateFull hnow (List.mem_of_mem_take hmem) with h | h | h
  · rw [hc.1] at h
    cases h
  · exact hc.2.1 h
  · exact hc.2.2 h

theorem admits_presigned (h : cfg.Sound host) (hsecret : secretOf cfg.accessKey = some cfg.secretKey)
    (hnow : 0 ≤ now ∧ now ≤ 9223372037) :
    (store S secretOf skew).admits later
        (presign S cfg.accessKey cfg.secretKey (dateFull now) (str "auto") host (cfg.object key)
          (termOf expires)) = true ↔
      now - skew ≤ later ∧ later ≤ now + termOf expires :=
  admits_presign_iff (store S secretOf skew) hsecret (readStamp_dateFull hnow) h.accessKey.2.1
    (notMem_date hnow (by decide)) (by change chr '/' ∉ str "auto"; decide) (termOf_bounds expires)

/-- The store serves a presigned URL for reading that object, from the time of signing to the end of
the term. -/
theorem presignUrl_served_iff (h : cfg.Sound host) (hsecret : secretOf cfg.accessKey = some cfg.secretKey)
    (hnow : 0 ≤ now ∧ now ≤ 9223372037) (hplain : Percent.Plain (cfg.object key)) :
    ∃ req, requestOf (str "GET") (presignUrl S cfg now key expires) = some req ∧
      Percent.decode req.path = cfg.object key ∧
      ((store S secretOf skew).admits later req = true ↔
        now - skew ≤ later ∧ later ≤ now + termOf expires) :=
  ⟨_, requestOf_presignUrl h hnow hplain, Percent.decode_encode (by decide) _,
    admits_presigned h hsecret hnow⟩

/-- `SHA256` and `HMAC` with `EVP_sha256`. -/
def openssl : Suite := ⟨Sha256.sha256, Sha256.hmac⟩

def pdfConfig : R2Config where
  accessKey := str "4f1c"
  secretKey := str "c0ffee"
  endpoint := str "https://acc.r2.cloudflarestorage.com"
  bucket := str "examvan-pdfs"

def pdfHost : Bytes := str "acc.r2.cloudflarestorage.com"

def pdfKey : Bytes := str "exams/7/soal 1.pdf"

def pdfSecrets (accessKey : Bytes) : Option Bytes :=
  if accessKey = pdfConfig.accessKey then some pdfConfig.secretKey else none

theorem sound_pdfConfig : pdfConfig.Sound pdfHost where
  accessKey := by decide
  secretKey := by decide
  endpoint := .inl (by decide)
  host := by decide
  atR2 := by decide
  bucket := by decide

theorem plain_pdfKey : Percent.Plain (pdfConfig.object pdfKey) := by
  unfold Percent.Plain
  decide

theorem presignUrl_served_iff_pdf :
    ∃ req, requestOf (str "GET") (presignUrl openssl pdfConfig 1700000000 pdfKey 3600) = some req ∧
      Percent.decode req.path = pdfConfig.object pdfKey ∧
      ((store openssl pdfSecrets 900).admits 1700003601 req = true ↔
        1700000000 - ((900 : Nat) : Int) ≤ 1700003601 ∧ 1700003601 ≤ 1700000000 + (termOf 3600 : Int)) :=
  presignUrl_served_iff sound_pdfConfig (by decide) (by decide) plain_pdfKey

/-- Whatever else a request with the signature of a presigned URL changes, the store serves it for
reading that object at that host in that term, or the hash or the keyed hash has a collision. -/
theorem signature_opens_only (h : cfg.Sound host) (hnow : 0 ≤ now ∧ now ≤ 9223372037)
    {signed req : SigV4.Request}
    (hplain : Percent.Plain (cfg.object key))
    (hurl : requestOf (str "GET") (presignUrl S cfg now key expires) = some signed)
    (hreq : req.Lined)
    (hsame : get (parameters req.query) signatureName = get (parameters signed.query) signatureName)
    (hserved : (store S secretOf skew).admits later req = true) :
    Forged (store S secretOf skew) cfg.accessKey cfg.secretKey (dateFull now) host (cfg.object key)
        (termOf expires) req ∨
      (req.method = str "GET" ∧ Percent.decode req.path = cfg.object key ∧
        get req.headers hostName = some host ∧ now - skew ≤ later ∧ later ≤ now + termOf expires) := by
  rw [requestOf_presignUrl h hnow hplain] at hurl
  cases hurl
  have hsignature : get (parameters req.query) signatureName =
      some (presignSignature S cfg.accessKey cfg.secretKey (dateFull now) (str "auto") host
        (cfg.object key) (termOf expires)) := by
    rw [hsame, presign, parameters_encodeParameters (by simp [presignParameters])]
    exact get_presign _ _ (List.mem_append_right _ List.mem_cons_self)
  exact opens_only (store S secretOf skew) hreq hserved hsignature (readStamp_dateFull hnow)
    (notMem_host h (by decide))

theorem signature_opens_only_pdf :
    Forged (store openssl pdfSecrets 900) pdfConfig.accessKey pdfConfig.secretKey
        (dateFull 1700000000) pdfHost (pdfConfig.object pdfKey) (termOf 3600)
        (presign openssl pdfConfig.accessKey pdfConfig.secretKey (dateFull 1700000000) (str "auto")
          pdfHost (pdfConfig.object pdfKey) (termOf 3600)) ∨
      (str "GET" = str "GET" ∧
        Percent.decode (Percent.encode Percent.isPathByte (pdfConfig.object pdfKey)) =
          pdfConfig.object pdfKey ∧
        get [(hostName, pdfHost)] hostName = some pdfHost ∧
        1700000000 - ((900 : Nat) : Int) ≤ 1700000100 ∧ 1700000100 ≤ 1700000000 + (termOf 3600 : Int)) :=
  signature_opens_only sound_pdfConfig
    (by decide) plain_pdfKey
    (requestOf_presignUrl sound_pdfConfig (by decide) plain_pdfKey)
    { method := by change chr '\n' ∉ str "GET"; decide
      headers := by
        change ∀ h ∈ [(hostName, pdfHost)], chr ':' ∉ h.1 ∧ chr '\n' ∉ h.1 ∧ chr '\n' ∉ h.2
        decide }
    rfl
    ((admits_presign_iff (store openssl pdfSecrets 900) (by decide)
      (readStamp_dateFull (by decide)) (by decide) (notMem_date (by decide) (by decide)) (by decide)
      (termOf_bounds 3600)).mpr (by decide))

end ExamVan.R2
