import ExamVan.Admin.Users
import ExamVan.Api.Body
import ExamVan.Http.CookieHeader
import ExamVan.Lib.Base64
import ExamVan.Lib.Sha256
import ExamVan.Models.Roles

/-!
# The session cookie

A login writes its session as fields, in Base64 and with a MAC behind a dot. A request brings the
cookie back among others, and `verify_session_cookie` reads the fields again.
-/

namespace ExamVan.Http

open ByteString Queue

/-! ### Base64 and the MAC -/

def b64Encode (s : Bytes) : Bytes := Base64.encode s

/-- `EVP_DecodeBlock`: blanks around the block are ignored. -/
def evpDecodeBlock (s : Bytes) : Option Bytes :=
  Base64.decodeGroups ((s.dropWhile fun c => c = chr ' ' || c = chr '\t').rdropWhile fun c =>
    isSpace c || c = chr '-')

/-- The text is filled up to a multiple of four. -/
def b64Decode (s : Bytes) : Bytes :=
  let input := s ++ List.replicate ((4 - s.length % 4) % 4) (chr '=')
  match evpDecodeBlock input with
  | none => []
  | some out => out.take (out.length - Base64.padding input)

section

variable (hmac : Bytes → Bytes → Bytes)

/-- `hmac_sha256_b64`, for a MAC of the key and the data. -/
def hmacSha256B64 (key data : Bytes) : Bytes := b64Encode (hmac key data)

def encodeCookieValue (secret payloadB64 : Bytes) : Bytes :=
  payloadB64 ++ str "." ++ hmacSha256B64 hmac secret payloadB64

/-- The payload is in front of the last dot. The comparison looks at every byte of the MAC. -/
def decodeCookieValue (secret value : Bytes) : Option Bytes :=
  if chr '.' ∈ value then
    let payload := (value.rdropWhile (· ≠ chr '.')).dropLast
    let sig := value.rtakeWhile (· ≠ chr '.')
    if sig = hmacSha256B64 hmac secret payload then some (b64Decode payload) else none
  else none

end

/-! ### The session -/

/-- `duration_cast<seconds>` of a clock that counts nanoseconds. -/
def epochSeconds (clock : Int64) : Int := clock.toInt.tdiv 1000000000

def isSuperAdminRole (roleJson : Bytes) : Bool := Models.hasRole roleJson (str "superadmin")

def buildLoginSessionPayload (clock : Int64) (adminId : Int32) (username roleJson : Bytes) : Bytes :=
  let isSuper := isSuperAdminRole roleJson
  let exp := epochSeconds clock + 86400
  let iat := epochSeconds clock
  b64Encode (str "admin_id=" ++ intText adminId.toInt ++ str "&username=" ++ username ++ str "&role=" ++
    Models.normalizeRole roleJson ++ str "&is_super_admin=" ++ (if isSuper then str "1" else str "0") ++
    str "&iat=" ++ intText iat ++ str "&exp=" ++ intText exp)

/-- Pieces without an equals sign are skipped. -/
def parseKv (s : Bytes) : StringMap :=
  OrderedMap.empty.insertAll
    (((s.splitOn (chr '&')).filter (chr '=' ∈ ·)).map Api.formPair)

def sessionData (fields : StringMap) : SessionData :=
  let role := (fields.find? (str "role")).getD []
  let flag := fields.find? (str "is_super_admin")
  { adminId := ((fields.find? (str "admin_id")).bind stoi).getD 0
    username := (fields.find? (str "username")).getD []
    role := role
    instansi := (fields.find? (str "instansi")).getD []
    isSuperAdmin := flag = some (str "1") || flag = some (str "true") || isSuperAdminRole role }

/-- A session with an expiry is refused from then on, and with one that is no number. -/
def readSession (clock : Int64) (fields : StringMap) : Option SessionData :=
  let exp := (fields.find? (str "exp")).getD []
  if exp = [] then some (sessionData fields)
  else
    match stoll exp with
    | none => none
    | some exp => if exp.toInt ≤ epochSeconds clock then none else some (sessionData fields)

section

variable (hmac : Bytes → Bytes → Bytes) (clock : Int64)

/-- Without the cookie, a header of a single word is taken for its value. -/
def verifySessionCookie (secret header : Bytes) : Option SessionData :=
  let cookieVal := extractCookie header (str "examvan_session")
  let value := if cookieVal = [] then header else cookieVal
  if cookieVal = [] ∧ (chr ';' ∈ header ∨ chr ' ' ∈ header ∨ header = []) then none
  else (decodeCookieValue hmac secret value).bind fun decoded => readSession clock (parseKv decoded)

def verifySessionCookieDual (cur prev header : Bytes) : Option SessionData :=
  match verifySessionCookie hmac clock cur header with
  | some session => some session
  | none => if prev ≠ [] then verifySessionCookie hmac clock prev header else none

end

/-! ### Reading back -/

variable {hmac : Bytes → Bytes → Bytes} {clock issued : Int64} {adminId : Int32}
  {username roleJson secret s : Bytes}

theorem b64Decode_b64Encode (s : Bytes) : b64Decode (b64Encode s) = s := by
  have hplain : ∀ c ∈ Base64.encode s, c ≠ chr ' ' ∧ c ≠ chr '\t' ∧ isSpace c = false ∧ c ≠ chr '-' := by
    intro c hc
    have hdigit := Base64.isDigitOrPad_of_mem_encode hc
    revert hdigit
    exact forall_byte (p := fun c => Base64.isDigitOrPad c = true → c ≠ chr ' ' ∧ c ≠ chr '\t' ∧
      isSpace c = false ∧ c ≠ chr '-') (by decide) c
  have hfilled : Base64.encode s ++ List.replicate ((4 - (Base64.encode s).length % 4) % 4) (chr '=') =
      Base64.encode s := by
    rw [Base64.length_encode_mod]
    exact List.append_nil _
  have hfront : ((Base64.encode s).dropWhile fun c => c = chr ' ' || c = chr '\t') = Base64.encode s := by
    rw [List.dropWhile_eq_self_iff]
    intro hpos
    have hfirst := hplain _ (List.getElem_mem hpos)
    simp [hfirst.1, hfirst.2.1]
  have hback : ((Base64.encode s).rdropWhile fun c => isSpace c || c = chr '-') = Base64.encode s := by
    rw [List.rdropWhile_eq_self_iff]
    intro hnil
    have hlast := hplain _ (List.getLast_mem hnil)
    simp [hlast.2.2.1, hlast.2.2.2]
  have hlength : (s ++ List.replicate ((3 - s.length % 3) % 3) (0 : UInt8)).length -
      (3 - s.length % 3) % 3 = s.length := by
    rw [List.length_append, List.length_replicate]
    omega
  rw [b64Encode, b64Decode]
  simp only [hfilled]
  rw [evpDecodeBlock, hfront, hback, Base64.decodeGroups_encode, Base64.padding_encode]
  simp only [hlength, List.take_left]

/-- What `encode_cookie_value` signs, `decode_cookie_value` gives back. -/
theorem decodeCookieValue_encodeCookieValue (other : Bytes) :
    decodeCookieValue hmac other (encodeCookieValue hmac secret s) =
      if hmacSha256B64 hmac secret s = hmacSha256B64 hmac other s then some (b64Decode s) else none := by
  have hnodot : ∀ c ∈ hmacSha256B64 hmac secret s, c ≠ chr '.' := by
    intro c hc
    have hdigit := Base64.isDigitOrPad_of_mem_encode hc
    revert hdigit
    exact forall_byte (p := fun c => Base64.isDigitOrPad c = true → c ≠ chr '.') (by decide) c
  have hvalue : encodeCookieValue hmac secret s = (s ++ [chr '.']) ++ hmacSha256B64 hmac secret s := rfl
  have hpayload : (encodeCookieValue hmac secret s).rdropWhile (· ≠ chr '.') = s ++ [chr '.'] := by
    rw [hvalue, List.rdropWhile, List.reverse_append,
      List.dropWhile_append_of_pos fun c hc => by simpa using hnodot c (List.mem_reverse.mp hc)]
    simp
  have hsig : (encodeCookieValue hmac secret s).rtakeWhile (· ≠ chr '.') = hmacSha256B64 hmac secret s := by
    rw [hvalue, List.rtakeWhile, List.reverse_append,
      List.takeWhile_append_of_pos fun c hc => by simpa using hnodot c (List.mem_reverse.mp hc)]
    simp
  have hdot : chr '.' ∈ encodeCookieValue hmac secret s := by
    rw [hvalue]
    simp
  rw [decodeCookieValue, if_pos hdot]
  simp only [hpayload, hsig, List.dropLast_concat]

/-- A byte that neither separates nor stands for another one. -/
def isPlainField (c : UInt8) : Bool := !(str "&=+%").contains c

def kvText (p : Bytes × Bytes) : Bytes := p.1 ++ chr '=' :: p.2

theorem parseKv_intercalate {pairs : List (Bytes × Bytes)} (hne : pairs ≠ [])
    (hplain : ∀ p ∈ pairs, (∀ c ∈ p.1, isPlainField c = true) ∧ ∀ c ∈ p.2, isPlainField c = true) :
    parseKv ([chr '&'].intercalate (pairs.map kvText)) = OrderedMap.empty.insertAll pairs := by
  have hbyte : ∀ c : UInt8, isPlainField c = true →
      c ≠ chr '&' ∧ c ≠ chr '=' ∧ c ≠ chr '+' ∧ c ≠ chr '%' := forall_byte (by decide)
  have hseparator : ∀ t ∈ pairs.map kvText, chr '&' ∉ t := by
    intro t ht hmem
    obtain ⟨p, hp, rfl⟩ := List.mem_map.mp ht
    rcases List.mem_append.mp hmem with hkey | hvalue
    · exact (hbyte _ ((hplain p hp).1 _ hkey)).1 rfl
    · rcases List.mem_cons.mp hvalue with heq | hvalue
      · revert heq
        decide
      · exact (hbyte _ ((hplain p hp).2 _ hvalue)).1 rfl
  have hkept : (pairs.map kvText).filter (chr '=' ∈ ·) = pairs.map kvText := by
    rw [List.filter_eq_self]
    intro t ht
    obtain ⟨p, -, rfl⟩ := List.mem_map.mp ht
    simp [kvText]
  have hpair : ∀ p ∈ pairs, Api.formPair (kvText p) = p := by
    intro p hp
    obtain ⟨hkey, hvalue⟩ := hplain p hp
    have hfront : (kvText p).takeWhile (· ≠ chr '=') = p.1 := by
      rw [kvText, List.takeWhile_append_of_pos fun c hc => by simpa using (hbyte c (hkey c hc)).2.1]
      simp
    have hback : ((kvText p).dropWhile (· ≠ chr '=')).tail = p.2 := by
      rw [kvText, List.dropWhile_append_of_pos fun c hc => by simpa using (hbyte c (hkey c hc)).2.1]
      simp
    rw [Api.formPair, hfront, hback, Api.urlDecode_eq_self fun c hc => (hbyte c (hkey c hc)).2.2,
      Api.urlDecode_eq_self fun c hc => (hbyte c (hvalue c hc)).2.2]
  rw [parseKv, List.splitOn_intercalate _ hseparator (by simpa using hne), hkept, List.map_map]
  refine congrArg OrderedMap.empty.insertAll ?_
  calc pairs.map (Api.formPair ∘ kvText) = pairs.map id := List.map_congr_left hpair
    _ = pairs := List.map_id pairs

/-! ### The fields of a login -/

/-- What `normalize_role` keeps of a text of roles. -/
theorem normalizeRole_eq (roleJson : Bytes) : ∃ roles : List Models.Role, roles.Nodup ∧
    Models.normalizeRole roleJson = Models.rolesText roles ∧
      (Models.Role.superadmin ∈ roles ↔ isSuperAdminRole roleJson = true) := by
  have hmem : Models.Role.superadmin ∈ Models.parseRoles roleJson ↔ isSuperAdminRole roleJson = true := by
    rw [Models.parseRoles, List.mem_filter]
    exact and_iff_right (by decide)
  have hnodup : (Models.parseRoles roleJson).Nodup := List.Nodup.filter _ (by decide)
  rw [Models.normalizeRole]
  split
  · next hnone =>
    rw [hnone] at hmem
    exact ⟨[.guru], by decide, rfl, by rw [← hmem]; decide⟩
  · exact ⟨_, hnodup, rfl, hmem⟩

theorem isSuperAdminRole_normalizeRole (roleJson : Bytes) :
    isSuperAdminRole (Models.normalizeRole roleJson) = isSuperAdminRole roleJson := by
  obtain ⟨roles, hnodup, htext, hsuper⟩ := normalizeRole_eq roleJson
  have hroles : isSuperAdminRole (Models.rolesText roles) = decide (Models.Role.superadmin ∈ roles) :=
    Models.hasRole_rolesText hnodup .superadmin
  rw [htext, hroles, Bool.eq_iff_iff, decide_eq_true_eq, hsuper]

theorem plain_normalizeRole (roleJson : Bytes) :
    ∀ c ∈ Models.normalizeRole roleJson, isPlainField c = true := by
  obtain ⟨roles, hnodup, htext, -⟩ := normalizeRole_eq roleJson
  have hall : ∀ roles ∈ Models.Role.lists, ∀ c ∈ Models.rolesText roles, isPlainField c = true := by
    decide +kernel
  rw [htext]
  exact hall roles (Models.Role.mem_lists hnodup)

theorem plain_intText (n : Int) : ∀ c ∈ intText n, isPlainField c = true := by
  intro c hc
  rcases mem_intText hc with rfl | hdigit
  · decide
  · revert hdigit
    exact forall_byte (p := fun c => isDigit c = true → isPlainField c = true) (by decide) c

theorem plain_username (h : Admin.Users.isValidUsername username = true) :
    ∀ c ∈ username, isPlainField c = true := by
  intro c hc
  simp only [Admin.Users.isValidUsername, Bool.and_eq_true, List.all_eq_true] at h
  have hc := h.2 c hc
  revert hc
  exact forall_byte (p := fun c => ((chr 'a' ≤ c && c ≤ chr 'z') || (chr '0' ≤ c && c ≤ chr '9') ||
    c = chr '.' || c = chr '_' || c = chr '-') = true → isPlainField c = true) (by decide) c

def loginPairs (issued : Int64) (adminId : Int32) (username roleJson : Bytes) : List (Bytes × Bytes) :=
  [(str "admin_id", intText adminId.toInt), (str "username", username),
    (str "role", Models.normalizeRole roleJson),
    (str "is_super_admin", if isSuperAdminRole roleJson then str "1" else str "0"),
    (str "iat", intText (epochSeconds issued)), (str "exp", intText (epochSeconds issued + 86400))]

theorem buildLoginSessionPayload_eq (issued : Int64) (adminId : Int32) (username roleJson : Bytes) :
    buildLoginSessionPayload issued adminId username roleJson =
      b64Encode ([chr '&'].intercalate ((loginPairs issued adminId username roleJson).map kvText)) := by
  rw [buildLoginSessionPayload]
  refine congrArg b64Encode ?_
  simp only [loginPairs, kvText, List.map_cons, List.map_nil, List.intercalate_cons_cons,
    List.intercalate_singleton, List.append_assoc, List.cons_append, List.nil_append]
  rfl

theorem epochSeconds_bounds (clock : Int64) :
    -9223372038 < epochSeconds clock ∧ epochSeconds clock < 9223372038 := by
  have hlow := clock.le_toInt
  have hhigh := clock.toInt_lt
  have hsign : (1000000000 : Int).sign = 1 := rfl
  rw [epochSeconds, Int.tdiv_eq_ediv, hsign]
  split <;> omega

theorem stoll_exp (issued : Int64) : ∃ exp : Int64,
    stoll (intText (epochSeconds issued + 86400)) = some exp ∧
      exp.toInt = epochSeconds issued + 86400 := by
  have hbounds := epochSeconds_bounds issued
  have hexp : (Int64.ofInt (epochSeconds issued + 86400)).toInt = epochSeconds issued + 86400 :=
    Int64.toInt_ofInt_of_le (by omega) (by omega)
  refine ⟨_, ?_, hexp⟩
  have hread := stoll_intText (Int64.ofInt (epochSeconds issued + 86400))
  rwa [hexp] at hread

/-- The session that a login is for. -/
def loginSession (adminId : Int32) (username roleJson : Bytes) : SessionData :=
  { adminId := adminId, username := username, role := Models.normalizeRole roleJson
    isSuperAdmin := isSuperAdminRole roleJson }

theorem find?_loginPairs (key : Bytes) :
    (OrderedMap.empty.insertAll (loginPairs issued adminId username roleJson)).find? key =
      ((loginPairs issued adminId username roleJson).find? fun e => e.1 = key).map Prod.snd := by
  have hdistinct : (loginPairs issued adminId username roleJson).Pairwise fun a b => a.1 ≠ b.1 := by
    have hkeys : [str "admin_id", str "username", str "role", str "is_super_admin", str "iat",
        str "exp"].Pairwise (· ≠ ·) := by decide
    exact List.pairwise_map.mp
      (show ((loginPairs issued adminId username roleJson).map Prod.fst).Pairwise (· ≠ ·) from hkeys)
  have hempty : (OrderedMap.empty : StringMap).find? key = none := rfl
  rw [OrderedMap.find?_insertAll hdistinct, hempty, Option.or_none]
  -- the order of the keys decides equality on its own
  exact congrArg (fun p => Option.map Prod.snd (List.find? p _))
    (funext fun e => decide_eq_decide.mpr Iff.rfl)

theorem sessionData_loginPairs : sessionData (OrderedMap.empty.insertAll
    (loginPairs issued adminId username roleJson)) = loginSession adminId username roleJson := by
  have hid : (loginPairs issued adminId username roleJson).find? (fun e => e.1 = str "admin_id") =
      some (str "admin_id", intText adminId.toInt) := rfl
  have huser : (loginPairs issued adminId username roleJson).find? (fun e => e.1 = str "username") =
      some (str "username", username) := rfl
  have hrole : (loginPairs issued adminId username roleJson).find? (fun e => e.1 = str "role") =
      some (str "role", Models.normalizeRole roleJson) := rfl
  have hinstansi : (loginPairs issued adminId username roleJson).find? (fun e => e.1 = str "instansi") =
      none := rfl
  have hflag : (loginPairs issued adminId username roleJson).find? (fun e => e.1 = str "is_super_admin") =
      some (str "is_super_admin", if isSuperAdminRole roleJson then str "1" else str "0") := rfl
  have hsuper : (decide ((some (if isSuperAdminRole roleJson then str "1" else str "0")) = some (str "1")) ||
      decide ((some (if isSuperAdminRole roleJson then str "1" else str "0")) = some (str "true")) ||
      isSuperAdminRole (Models.normalizeRole roleJson)) = isSuperAdminRole roleJson := by
    rw [isSuperAdminRole_normalizeRole]
    cases isSuperAdminRole roleJson <;> decide
  simp only [sessionData, find?_loginPairs, hid, huser, hrole, hinstansi, hflag, Option.map_some,
    Option.map_none, Option.getD_some, Option.getD_none, Option.bind_some, stoi_intText, hsuper]
  rfl

/-- The fields of a login are read until they expire. -/
theorem readSession_loginPairs : readSession clock (OrderedMap.empty.insertAll
    (loginPairs issued adminId username roleJson)) =
      if epochSeconds issued + 86400 ≤ epochSeconds clock then none
      else some (loginSession adminId username roleJson) := by
  obtain ⟨exp, hread, hexp⟩ := stoll_exp issued
  have hfound : (OrderedMap.empty.insertAll (loginPairs issued adminId username roleJson)).find? (str "exp") =
      some (intText (epochSeconds issued + 86400)) := by
    rw [find?_loginPairs]
    rfl
  have hne := intText_ne_nil (epochSeconds issued + 86400)
  simp only [readSession, hfound, Option.getD_some, if_neg hne, hread, hexp, sessionData_loginPairs]

/-! ### The cookie of a login -/

def sessionName : Bytes := str "examvan_session"

/-- The `Cookie` header with the cookie of a login between other cookies. -/
def loginHeader (hmac : Bytes → Bytes → Bytes) (secret : Bytes) (issued : Int64) (adminId : Int32)
    (username roleJson : Bytes) (befores afters : List Cookie) : Bytes :=
  cookieHeader (befores.map Cookie.text ++ (sessionName ++ chr '=' :: encodeCookieValue hmac secret
    (buildLoginSessionPayload issued adminId username roleJson)) :: afters.map Cookie.text)

theorem octet_encodeCookieValue (payload : Bytes) :
    ∀ c ∈ encodeCookieValue hmac secret (b64Encode payload), isCookieOctet c = true := by
  have hdigit : ∀ c : UInt8, Base64.isDigitOrPad c = true → isCookieOctet c = true :=
    forall_byte (by decide)
  intro c hc
  rcases List.mem_append.mp hc with hc | hc
  · rcases List.mem_append.mp hc with hc | hc
    · exact hdigit c (Base64.isDigitOrPad_of_mem_encode hc)
    · obtain rfl : c = chr '.' := List.mem_singleton.mp hc
      decide
  · exact hdigit c (Base64.isDigitOrPad_of_mem_encode hc)

variable {other : Bytes} {befores afters : List Cookie}

/-- A secret with the same MAC for the payload reads the session until it expires, and no other
secret reads it. -/
theorem verifySessionCookie_loginHeader (hname : Admin.Users.isValidUsername username = true)
    (hothers : ∀ k ∈ befores, k.name ≠ sessionName) :
    verifySessionCookie hmac clock other
        (loginHeader hmac secret issued adminId username roleJson befores afters) =
      if hmacSha256B64 hmac secret (buildLoginSessionPayload issued adminId username roleJson) =
          hmacSha256B64 hmac other (buildLoginSessionPayload issued adminId username roleJson) then
        if epochSeconds issued + 86400 ≤ epochSeconds clock then none
        else some (loginSession adminId username roleJson)
      else none := by
  have hpayload := buildLoginSessionPayload_eq issued adminId username roleJson
  have hextract : extractCookie (loginHeader hmac secret issued adminId username roleJson befores afters)
      sessionName = encodeCookieValue hmac secret
        (buildLoginSessionPayload issued adminId username roleJson) := by
    refine extractCookie_cookieHeader (by decide) (by decide) ?_ hothers
    rw [hpayload]
    exact octet_encodeCookieValue _
  have hne : encodeCookieValue hmac secret (buildLoginSessionPayload issued adminId username roleJson) ≠ [] := by
    simp [encodeCookieValue, str]
  have hplain : ∀ p ∈ loginPairs issued adminId username roleJson,
      (∀ c ∈ p.1, isPlainField c = true) ∧ ∀ c ∈ p.2, isPlainField c = true := by
    simp only [loginPairs, List.forall_mem_cons]
    refine ⟨⟨by decide, plain_intText _⟩, ⟨by decide, plain_username hname⟩,
      ⟨by decide, plain_normalizeRole _⟩, ⟨by decide, ?_⟩, ⟨by decide, plain_intText _⟩,
      ⟨by decide, plain_intText _⟩, by simp⟩
    split <;> decide
  have hfields : parseKv ([chr '&'].intercalate ((loginPairs issued adminId username roleJson).map kvText)) =
      OrderedMap.empty.insertAll (loginPairs issued adminId username roleJson) :=
    parseKv_intercalate (List.cons_ne_nil _ _) hplain
  rw [verifySessionCookie]
  simp only [show str "examvan_session" = sessionName from rfl, hextract, if_neg hne,
    decodeCookieValue_encodeCookieValue]
  rw [if_neg fun h => hne h.1]
  split
  · rw [Option.bind_some, hpayload, b64Decode_b64Encode, hfields, readSession_loginPairs]
  · rfl

/-- A login is read back as issued until it expires, also with two secrets, if the second of them is
not empty. -/
theorem session_readBack (hmac : Bytes → Bytes → Bytes) (issued clock : Int64) (adminId : Int32)
    (username roleJson secret other : Bytes) (befores afters : List Cookie)
    (hname : Admin.Users.isValidUsername username = true)
    (hbefores : ∀ k ∈ befores, k.name ≠ sessionName) :
    let header := loginHeader hmac secret issued adminId username roleJson befores afters
    (epochSeconds clock < epochSeconds issued + 86400 →
      verifySessionCookie hmac clock secret header = some (loginSession adminId username roleJson) ∧
        verifySessionCookieDual hmac clock secret other header =
          some (loginSession adminId username roleJson) ∧
        (secret ≠ [] → verifySessionCookieDual hmac clock other secret header =
          some (loginSession adminId username roleJson))) ∧
      (epochSeconds issued + 86400 ≤ epochSeconds clock →
        verifySessionCookie hmac clock secret header = none ∧
          verifySessionCookieDual hmac clock secret other header = none ∧
          verifySessionCookieDual hmac clock other secret header = none) := by
  intro header
  have hsame : verifySessionCookie hmac clock secret header =
      if epochSeconds issued + 86400 ≤ epochSeconds clock then none
      else some (loginSession adminId username roleJson) :=
    (verifySessionCookie_loginHeader hname hbefores).trans (if_pos rfl)
  have hother : verifySessionCookie hmac clock other header = none ∨
      verifySessionCookie hmac clock other header = verifySessionCookie hmac clock secret header := by
    have hread : verifySessionCookie hmac clock other header = _ :=
      verifySessionCookie_loginHeader hname hbefores
    rw [hsame, hread]
    split
    · exact .inr rfl
    · exact .inl rfl
  constructor
  · intro hlive
    rw [if_neg (by omega)] at hsame
    refine ⟨hsame, by rw [verifySessionCookieDual, hsame], fun hne => ?_⟩
    rcases hother with hnone | hread
    · rw [verifySessionCookieDual, hnone, hsame]
      exact if_pos hne
    · rw [verifySessionCookieDual, hread, hsame]
  · intro hexpired
    rw [if_pos hexpired] at hsame
    rw [hsame, or_self] at hother
    have hneither : ∀ prev : Bytes, (if prev ≠ [] then none else none) = (none : Option SessionData) :=
      fun prev => ite_self none
    refine ⟨hsame, ?_, ?_⟩
    · rw [verifySessionCookieDual, hsame, hother]
      exact hneither other
    · rw [verifySessionCookieDual, hsame, hother]
      exact hneither secret

def otherCookie (name value : String) (hname : str name ≠ [] ∧ ∀ c ∈ str name, isTokenByte c = true)
    (hvalue : ∀ c ∈ str value, isCookieOctet c = true) : Cookie :=
  ⟨str name, str value, hname, .inl hvalue⟩

/-- A token of the other kind in front of the session, and a cookie behind it. -/
theorem session_readBack_guru :
    let header := loginHeader Sha256.hmac (str "rahasia") 0 7 (str "budi") (str "[\"operator\"]")
      [otherCookie "csrf_token" "a1" (by decide) (by decide)] [otherCookie "tema" "gelap" (by decide) (by decide)]
    (epochSeconds 0 < epochSeconds 0 + 86400 →
      verifySessionCookie Sha256.hmac 0 (str "rahasia") header =
          some (loginSession 7 (str "budi") (str "[\"operator\"]")) ∧
        verifySessionCookieDual Sha256.hmac 0 (str "rahasia") [] header =
          some (loginSession 7 (str "budi") (str "[\"operator\"]")) ∧
        (str "rahasia" ≠ [] → verifySessionCookieDual Sha256.hmac 0 [] (str "rahasia") header =
          some (loginSession 7 (str "budi") (str "[\"operator\"]")))) ∧
      (epochSeconds 0 + 86400 ≤ epochSeconds 0 →
        verifySessionCookie Sha256.hmac 0 (str "rahasia") header = none ∧
          verifySessionCookieDual Sha256.hmac 0 (str "rahasia") [] header = none ∧
          verifySessionCookieDual Sha256.hmac 0 [] (str "rahasia") header = none) :=
  session_readBack Sha256.hmac 0 0 7 (str "budi") (str "[\"operator\"]") (str "rahasia") [] _ _ (by decide)
    (by decide)

/-- An empty secret in the second place is not tried. -/
theorem session_not_readBack :
    epochSeconds 0 < epochSeconds 0 + 86400 ∧
      verifySessionCookieDual Sha256.hmac 0 (str "baru") []
        (loginHeader Sha256.hmac [] 0 7 (str "budi") (str "[\"guru\"]") [] []) = none := by
  decide +kernel

example : epochSeconds 1500000000 = 1 := by decide +kernel

end ExamVan.Http
