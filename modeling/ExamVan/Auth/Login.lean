import ExamVan.Admin.CreateExam
import ExamVan.Auth.UserStore
import ExamVan.Lib.Protocol

/-!
# Login

`login_handler` asks whether the username is locked out, verifies the password, and counts a failure
or forgets the failures there are. Each of these takes the lock of its own.
-/

namespace ExamVan.Auth

open ByteString Db Http Queue

/-! ### The fields of a request -/

/-- The value after a colon: a string literal as it is written, or the bytes up to the next comma,
brace or quote without the blanks around them. -/
def fieldAt : Bytes → Option Bytes
  | [] => none
  | c :: t =>
      if c = chr '"' then (scanString t).map Prod.fst
      else some (ExamToken.trim
        ((c :: t).takeWhile fun c => !(c = chr ',' || c = chr '\x7d' || c = chr '"')))

def jsonField (body key : Bytes) : Bytes := Api.memberFrom fieldAt key false false body

def loginForm (req : Http.Request) : StringMap :=
  if (findSub (str "application/json") (Admin.getHdr req (str "Content-Type"))).isSome then
    OrderedMap.empty
  else Api.parseForm req.body

def firstNonempty (values : List Bytes) : Bytes := (values.find? (· ≠ [])).getD []

def loginUsername (req : Http.Request) : Bytes :=
  firstNonempty [Admin.getParam (loginForm req) (str "username"), jsonField req.body (str "username"),
    jsonField req.body (str "email"), Admin.getParam (loginForm req) (str "email")]

def loginPassword (req : Http.Request) : Bytes :=
  firstNonempty [Admin.getParam (loginForm req) (str "password"), jsonField req.body (str "password")]

/-- `trim_lc`. -/
def trimLc (s : Bytes) : Bytes := (ExamToken.trim s).map tolower

/-! ### Operations -/

def kLoginFailureLimit : Nat := 5

/-- Fifteen minutes of `steady_clock`, in nanoseconds. -/
def kLoginLockout : Int := 15 * 60 * 1000000000

/-- The failures of a username, and the time of the last one. -/
structure Failure where
  count : Nat := 0
  last : Int := 0
  deriving DecidableEq

/-- What the login reads of a row of `admin_users`. -/
structure LoginRow where
  passwordHash : Bytes
  id : Int
  role : Bytes
  status : Bytes
  deriving DecidableEq

/-- `g_users`, `admin_users` by `LOWER(username)`, and `g_login_failures`. -/
structure LoginWorld where
  users : Bytes → Option Bytes := fun _ => none
  rows : Bytes → Option LoginRow := fun _ => none
  failures : Bytes → Option Failure := fun _ => none
  clock : Int := 0

/-- `verify_password`, and PostgreSQL's `LOWER`. -/
structure LoginSetup where
  verifyPassword : Bytes → Bytes → Bool
  lower : Bytes → Bytes

/-- A verification is an operation, so that a run shows when it is made. -/
inductive LoginOp
  | check (name : Bytes)
  | lookup (username name : Bytes)
  | verify (password hash : Bytes)
  | select (pg : PgStep) (name : Bytes)
  | fail (name : Bytes)
  | succeed (name : Bytes)
  | wait (duration : Nat)
  deriving DecidableEq

abbrev LoginAns : LoginOp → Type
  | .check _ | .verify _ _ => Bool
  | .lookup _ _ => Bytes
  | .select _ _ => Option LoginRow
  | .fail _ | .succeed _ | .wait _ => Unit

abbrev LoginProg := Prog LoginOp LoginAns

abbrev LoginOp.ask (o : LoginOp) : LoginProg (LoginAns o) := Prog.op o

namespace LoginWorld

variable (w : LoginWorld) (name : Bytes)

def setFailures (f : Option Failure) : LoginWorld :=
  { w with failures := Function.update w.failures name f }

/-- Five failures, the last of them less than fifteen minutes ago. -/
def locked : Bool :=
  match w.failures name with
  | none => false
  | some f => w.clock - f.last < kLoginLockout ∧ kLoginFailureLimit ≤ f.count

/-- The check under the lock: whether the username is locked out. -/
def check : Bool × LoginWorld :=
  match w.failures name with
  | none => (false, w)
  | some f =>
      if w.clock - f.last < kLoginLockout ∧ kLoginFailureLimit ≤ f.count then (true, w)
      else if kLoginLockout ≤ w.clock - f.last then (false, w.setFailures name none)
      else (false, w)

end LoginWorld

def LoginOp.perform (S : LoginSetup) : (o : LoginOp) → LoginWorld → LoginAns o × LoginWorld
  | .check name, w => w.check name
  | .lookup username name, w => (((w.users username).or (w.users name)).getD [], w)
  | .verify password hash, w => (S.verifyPassword password hash, w)
  | .select pg name, w => (if pg.runs then w.rows (S.lower name) else none, w)
  | .fail name, w =>
      let f := (w.failures name).getD {}
      ((), w.setFailures name (some { count := f.count + 1, last := w.clock }))
  | .succeed name, w => ((), w.setFailures name none)
  | .wait duration, w => ((), { w with clock := w.clock + duration })

/-! ### The handler -/

inductive TurnstileOutcome
  | missing
  | failed
  | passed
  deriving DecidableEq

/-- What a request meets: the CSRF check, Turnstile and the database. -/
structure LoginEnv where
  csrf : Bool := true
  turnstile : TurnstileOutcome := .passed
  pg : PgStep := {}

/-- Whom the session is for. -/
structure LoginSession where
  adminId : Int := 1
  roleJson : Bytes := str "[\"guru\"]"
  deriving DecidableEq

inductive LoginReply
  | refused (response : Response)
  | session (username : Bytes) (session : LoginSession)
  deriving DecidableEq

/-- The user map. The hash that is verified for an unknown user is nobody's. -/
def mapSession (username password : Bytes) : LoginProg (Option LoginSession) := do
  let stored : Bytes ← LoginOp.ask (.lookup username (trimLc username))
  if stored = [] then
    return none
  let ok : Bool ← LoginOp.ask (.verify password stored)
  return if ok then some {} else none

/-- The database: only an active user logs in, with the id and the role of the row. -/
def rowSession (pg : PgStep) (username password : Bytes) : LoginProg (Option LoginSession) := do
  let found : Option LoginRow ← LoginOp.ask (.select pg (trimLc username))
  match found with
  | none => return none
  | some row =>
      if row.status ≠ active then
        return none
      let ok : Bool ← LoginOp.ask (.verify password row.passwordHash)
      return if ok then
          some { adminId := row.id, roleJson := str "[\"" ++ row.role ++ str "\"]" }
        else none

/-- `login_handler` from the lockout check on. -/
def login (pg : PgStep) (username password : Bytes) : LoginProg LoginReply := do
  let locked : Bool ← LoginOp.ask (.check (trimLc username))
  if locked then
    return .refused (plainError 401 (str "invalid credentials"))
  let inMap ← mapSession username password
  let session ← match inMap with
    | some session => pure (some session)
    | none => rowSession pg username password
  match session with
  | none =>
      let _ : Unit ← LoginOp.ask (.fail (trimLc username))
      return .refused (plainError 401 (str "invalid credentials"))
  | some session =>
      let _ : Unit ← LoginOp.ask (.succeed (trimLc username))
      return .session (trimLc username) session

def loginHandler (env : LoginEnv) (req : Http.Request) : LoginProg LoginReply :=
  if !env.csrf then pure (.refused (plainError 403 (str "CSRF token mismatch")))
  else if env.turnstile = .missing then
    pure (.refused (plainError 403 (str "Turnstile required")))
  else if env.turnstile = .failed then pure (.refused (plainError 403 (str "Turnstile failed")))
  else if loginUsername req = [] ∨ loginPassword req = [] then
    pure (.refused (plainError 400 (str "username and password required")))
  else login env.pg (loginUsername req) (loginPassword req)

end ExamVan.Auth
