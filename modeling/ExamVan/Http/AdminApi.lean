import ExamVan.Db.Pool
import ExamVan.Http.Router
import ExamVan.Models.Exam
import ExamVan.Services.ExamToken

/-!
# The guard of the admin routes

`admin_api` wraps every handler under `/admin/api`. It checks the size, the rate, the session, the
role, the CSRF token and the scope, and hands the handler the request with the session's identity in
five internal headers.
-/

namespace ExamVan.Http

open ByteString Queue Models Db

/-! ### Sessions -/

structure SessionData where
  isSuperAdmin : Bool := false
  username : Bytes := []
  role : Bytes := []
  instansi : Bytes := []
  adminId : Int32 := 0
  deriving DecidableEq

def kRoleOperator : Bytes := str "operator"

/-- `has_role`. -/
def hasRole (roleJson role : Bytes) : Bool :=
  (findSub (str "\"" ++ role ++ str "\"") roleJson).isSome ||
    (roleJson = str "[" ++ role ++ str "]" || roleJson = role)

def isCookieBlank (c : UInt8) : Bool := c = chr ' ' || c = chr '\t'

/-- The value behind the `=` of a cookie. -/
def cookieValue (text : Bytes) : Bytes :=
  let val := ((text.dropWhile isCookieBlank).takeWhile (· ≠ chr ';')).rdropWhile fun c =>
    isCookieBlank c || c = chr '\r' || c = chr '\n'
  if val.head? = some (chr '"') ∧ val.getLast? = some (chr '"') then
    (val.drop 1).take (val.length - 2)
  else val

/-- The loop of `extract_cookie`, with the byte before the text. -/
def extractCookieFrom (name : Bytes) : Option UInt8 → Bytes → Bytes
  | _, [] => []
  | before, c :: t =>
      let boundary : Bool := match before with
        | none => true
        | some b => b = chr ';' || b = chr ' ' || b = chr ',' || b = chr '\t'
      if name <+: c :: t ∧ boundary then
        match ((c :: t).drop name.length).dropWhile isCookieBlank with
        | [] => extractCookieFrom name (some c) t
        | d :: rest =>
            if d = chr '=' then cookieValue rest else extractCookieFrom name (some c) t
      else extractCookieFrom name (some c) t

/-- `extract_cookie`. -/
def extractCookie (header name : Bytes) : Bytes := extractCookieFrom name none header

/-- `verify_csrf`. -/
def verifyCsrf (a b : Bytes) : Bool := a ≠ [] && b ≠ [] && a = b

/-! ### What a request meets -/

inductive Scope
  | none
  | exam
  | examAccess
  | submission
  deriving DecidableEq

/-- A row of `admin_users`. -/
structure AdminUser where
  id : Int32
  status : Bytes
  role : Bytes
  instansi : Bytes

instance (priority := high) lawfulIds : LawfulBEq (Int32 × Int32) := inferInstance

/-- What one call of the guard meets: the configuration, the store and the tables it asks. -/
structure GuardSurroundings where
  secretKey : Bytes := []
  secretPrev : Bytes := []
  /-- `EXAMVAN_SECRET_PREV` -/
  envSecretPrev : Bytes := []
  isDevelopment : Bool := false
  /-- `verify_session_cookie` -/
  verifySessionCookie : Bytes → Bytes → Option SessionData
  rateLimitAllowed : Bytes → Bool := fun _ => true
  /-- `active_store()->get_by_id` -/
  getById : Int32 → Option Exam := fun _ => none
  adminUsers : List AdminUser := []
  /-- the pairs of `exam_id` and `user_id` -/
  examPengawas : List (Int32 × Int32) := []
  /-- `SELECT exam_id FROM submissions WHERE id=$1` -/
  submissionExam : Bytes → Option Int32 := fun _ => none
  /-- the pool, the inner `acquire` and the query, when the session is revalidated -/
  sessionPool : PoolOutcome := {}
  sessionAcquired : Bool := true
  sessionQueried : Bool := true
  /-- the same three, when the scope is checked -/
  scopePool : PoolOutcome := {}
  scopeAcquired : Bool := true
  scopeQueried : Bool := true

/-! ### The session -/

def unauthorized : Response := ⟨401, str "\x7b\"success\":false,\"message\":\"unauthorized\"\x7d"⟩

def forbidden : Response := ⟨403, str "\x7b\"success\":false,\"message\":\"forbidden\"\x7d"⟩

namespace GuardSurroundings

variable (w : GuardSurroundings)

/-- `verify_session_cookie_dual`. -/
def verifySessionCookieDual (current previous header : Bytes) : Option SessionData :=
  match w.verifySessionCookie current header with
  | some session => some session
  | none => if previous = [] then none else w.verifySessionCookie previous header

/-- `is_authenticated`. -/
def isAuthenticated (req : Request) (secret : Bytes) : Option SessionData :=
  match req.headers.find? (str "Cookie") with
  | none => none
  | some header =>
      match if w.envSecretPrev = [] then w.verifySessionCookie secret header
        else w.verifySessionCookieDual secret w.envSecretPrev header with
      | none => none
      | some session => if session.adminId = 0 then none else some session

/-- The session that the guard takes from the `Cookie` header. -/
def verifiedSession (req : Request) : Option SessionData :=
  match req.headers.find? (str "Cookie") with
  | none => none
  | some header =>
      match if w.secretPrev = [] then w.verifySessionCookie w.secretKey header
        else w.verifySessionCookieDual w.secretKey w.secretPrev header with
      | some session => some session
      | none => w.isAuthenticated req w.secretKey

/-- The revalidation of a session: `pg_up && !pg_ok`. -/
def sessionRevoked (sess : SessionData) : Bool :=
  w.sessionPool.reached && w.sessionAcquired &&
    !(w.sessionQueried &&
      match w.adminUsers.find? (fun user => user.id = sess.adminId) with
      | none => false
      | some user => user.status = str "active")

/-! ### The CSRF token -/

def isMutating (method : Bytes) : Bool :=
  method = str "POST" || method = str "PUT" || method = str "DELETE" || method = str "PATCH"

def csrfOk (req : Request) : Bool :=
  let cookieHeader := (req.headers.find? (str "Cookie")).getD []
  let hostCsrf := extractCookie cookieHeader (str "__Host-csrf_token")
  let sessionCsrf :=
    if hostCsrf = [] ∧ w.isDevelopment then extractCookie cookieHeader (str "csrf_token")
    else hostCsrf
  let isToken := fun entry : Bytes × Bytes =>
    let k := entry.1.map tolower
    k = str "x-csrf-token" || k = str "x-xsrf-token"
  let tok := ((req.headers.entries.find? isToken).map Prod.snd).getD []
  verifyCsrf sessionCsrf tok

/-! ### The scopes -/

/-- `created_by` or `delegated_to`. -/
def ownsExam (sess : SessionData) (e : Exam) : Bool :=
  e.createdBy = sess.adminId || e.delegatedTo = some sess.adminId

/-- `ILIKE '%\"operator\"%'`. -/
def likeOperator (role : Bytes) : Bool :=
  (findSub (str "\"operator\"") (role.map tolower)).isSome

/-- Operators of the institution that the exam's creator belongs to. -/
def SameInstitution (userId createdBy : Int32) : Prop :=
  ∃ me ∈ w.adminUsers, ∃ owner ∈ w.adminUsers, owner.id = createdBy ∧ me.id = userId ∧
    likeOperator me.role = true ∧ me.instansi ≠ [] ∧ me.instansi ≠ str "personal" ∧
    me.instansi = owner.instansi

instance (userId createdBy : Int32) : Decidable (w.SameInstitution userId createdBy) := by
  unfold SameInstitution; infer_instance

/-- The `SELECT EXISTS(…) OR EXISTS(…)` of the scope. -/
def accessQuery (examId : Int32) (sess : SessionData) (e : Exam) : Bool :=
  (examId, sess.adminId) ∈ w.examPengawas || w.SameInstitution sess.adminId e.createdBy

/-- The sessions that may access an exam: its creator, its delegate, a supervisor assigned to it and
an operator of its creator's institution. -/
def MayAccess (sess : SessionData) (examId : Int32) (e : Exam) : Prop :=
  e.createdBy = sess.adminId ∨ e.delegatedTo = some sess.adminId ∨
    (examId, sess.adminId) ∈ w.examPengawas ∨ w.SameInstitution sess.adminId e.createdBy

/-- The parameter that names the exam: `exam_id`, else `id`. -/
def scopeExamId (req : Request) : Bytes :=
  match req.params.find? (str "exam_id") with
  | some eid => eid
  | none => (req.params.find? (str "id")).getD []

/-- `owner_ok` after the checks of the scopes `exam` and `exam_access`. -/
def ownerOk (scope : Scope) (sess : SessionData) (eid : Bytes) : Bool :=
  sess.isSuperAdmin ||
    match stoi eid with
    | none => false
    | some examId =>
        match w.getById examId with
        | none => false
        | some e =>
            ownsExam sess e ||
              (scope = .examAccess || hasRole sess.role kRoleOperator) && w.scopePool.reached &&
                w.scopeAcquired && w.scopeQueried && w.accessQuery examId sess e

theorem mayAccess_of_ownerOk {scope : Scope} {sess : SessionData} {eid : Bytes}
    (hsuper : sess.isSuperAdmin = false) (h : w.ownerOk scope sess eid = true) :
    ∃ examId e, stoi eid = some examId ∧ w.getById examId = some e ∧
      w.MayAccess sess examId e := by
  unfold ownerOk at h
  rw [hsuper, Bool.false_or] at h
  cases hid : stoi eid with
  | none => simp [hid] at h
  | some examId =>
      cases hexam : w.getById examId with
      | none => simp [hid, hexam] at h
      | some e =>
          refine ⟨examId, e, rfl, hexam, ?_⟩
          simp only [hid, hexam, Bool.or_eq_true, Bool.and_eq_true, ownsExam, accessQuery,
            decide_eq_true_eq] at h
          rcases h with (howner | hdelegate) | ⟨-, hpengawas | hoperator⟩
          · exact .inl howner
          · exact .inr (.inl hdelegate)
          · exact .inr (.inr (.inl hpengawas))
          · exact .inr (.inr (.inr hoperator))

/-- `sub_ok` after the checks of the scope `submission`. -/
def submissionOk (sess : SessionData) (sid : Bytes) : Bool :=
  sess.isSuperAdmin ||
    w.scopePool.reached && w.scopeAcquired && w.scopeQueried &&
      match w.submissionExam sid with
      | none => false
      | some examId =>
          match w.getById examId with
          | none => false
          | some e => ownsExam sess e

/-- Whether the scope lets the request through. A request without an id is left to the handler. -/
def scopeOk (scope : Scope) (sess : SessionData) (req : Request) : Bool :=
  match scope with
  | .none => true
  | .exam | .examAccess =>
      let eid := scopeExamId req
      eid = [] || w.ownerOk scope sess eid
  | .submission =>
      let sid := (req.params.find? (str "id")).getD []
      sid = [] || w.submissionOk sess sid

end GuardSurroundings

/-! ### The guard -/

/-- The limit of a request's body. -/
def maxBody (req : Request) : Nat :=
  if (findSub (str "/system-apps") req.path).isSome then 105 * 1024 * 1024 else 5 * 1024 * 1024

/-- The request with the session's identity in its headers. -/
def withIdentity (sess : SessionData) (req : Request) : Request :=
  { req with
    headers := req.headers.insertAll
      [(str "X-Internal-Admin-Id", intText sess.adminId.toInt),
       (str "X-Internal-Admin-Username", sess.username),
       (str "X-Internal-Admin-Role", sess.role),
       (str "X-Internal-Admin-Instansi", sess.instansi),
       (str "X-Internal-Admin-Super", if sess.isSuperAdmin then str "1" else str "0")] }

/-- `admin_api`: the response of a refusal, or the request that the handler gets. -/
def adminApi (w : GuardSurroundings) (roleReq : Bytes) (scope : Scope) (req : Request) :
    Except Response Request :=
  if maxBody req < req.body.length then .error ⟨413, str "payload too large"⟩
  else if !w.rateLimitAllowed ((req.headers.find? (str "X-Real-IP")).getD (str "global")) then
    .error ⟨429, str "\x7b\"error\":\"rate limit exceeded\"\x7d"⟩
  else
    match w.verifiedSession req with
    | none => .error unauthorized
    | some sess =>
        if sess.adminId ≤ 0 then .error unauthorized
        else if w.sessionRevoked sess then .error unauthorized
        else if roleReq ≠ [] ∧ !(sess.isSuperAdmin || hasRole sess.role roleReq) then
          .error forbidden
        else if GuardSurroundings.isMutating req.method ∧ !w.csrfOk req then
          .error ⟨403, str ("\x7b\"success\":false,\"message\":" ++
            "\"CSRF token tidak valid. Silakan refresh halaman.\"\x7d")⟩
        else if !w.scopeOk scope sess req then .error forbidden
        else .ok (withIdentity sess req)

theorem ite_error_eq_ok {ε α : Type*} {p : Prop} [Decidable p] {e : ε} {x : Except ε α} {a : α} :
    (if p then .error e else x) = Except.ok a ↔ ¬p ∧ x = .ok a := by
  by_cases hp : p <;> simp [hp]

/-- What is known of a request that reaches its handler. -/
theorem adminApi_ok {w : GuardSurroundings} {roleReq : Bytes} {scope : Scope} {req fwd : Request}
    {sess : SessionData} (hsess : w.verifiedSession req = some sess)
    (h : adminApi w roleReq scope req = .ok fwd) :
    0 < sess.adminId ∧ w.scopeOk scope sess req = true ∧ fwd = withIdentity sess req := by
  simp only [adminApi, hsess, ite_error_eq_ok] at h
  obtain ⟨-, -, hid, -, -, -, hscope, hfwd⟩ := h
  refine ⟨Int32.not_le.mp hid, by simpa using hscope, ?_⟩
  exact (Except.ok.inj hfwd).symm

theorem find?_withIdentity_super (sess : SessionData) (req : Request) :
    (withIdentity sess req).headers.find? (str "X-Internal-Admin-Super") =
      some (if sess.isSuperAdmin then str "1" else str "0") := by
  simp only [withIdentity, OrderedMap.insertAll_cons, OrderedMap.insertAll_nil,
    OrderedMap.find?_insert_self]

theorem adminApi_eq_ok_of_isOk {w : GuardSurroundings} {roleReq : Bytes} {scope : Scope} {req : Request}
    {sess : SessionData} (hsess : w.verifiedSession req = some sess)
    (h : (adminApi w roleReq scope req).isOk = true) :
    adminApi w roleReq scope req = .ok (withIdentity sess req) := by
  cases hresult : adminApi w roleReq scope req with
  | error => simp [hresult, Except.isOk, Except.toBool] at h
  | ok fwd => rw [(adminApi_ok hsess hresult).2.2]

end ExamVan.Http
