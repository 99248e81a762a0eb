import ExamVan.Admin.UpdateExam
import ExamVan.Admin.UserRoles
import ExamVan.Db.Pool

/-!
# Creating and editing users

Both handlers answer with the row or the columns that they have written, if any. The roles of the
request are read from its array, or else from a single field.
-/

namespace ExamVan.Admin.Users

open ByteString Db Http Models Queue

/-- What a request meets: the session cookie, the pool, what the statements answer, what
`hash_password` returns if it does not throw, and the bytes of a number of megabytes. -/
structure UserEnv where
  superSession : Bool := false
  pool : PoolOutcome := {}
  acquired : Bool := true
  usernameTaken : Bool := false
  emailTaken : Bool := false
  known : Bool := true
  hash : Option Bytes := some []
  /-- the id of the row that has been written -/
  written : Option Bytes := some (str "1")
  megabytes : Bytes → Option Int64 := fun _ => none

def UserEnv.connected (env : UserEnv) : Bool := env.pool.reached && env.acquired

/-- `body_field`: the field of the JSON body, or else of the form. -/
def bodyField (req : Http.Request) (key : Bytes) : Bytes :=
  let v := Api.jsonStringField req.body key
  if v = [] then getParam (Api.parseForm req.body) key else v

/-- `json_double_field`, with what is made of the number. -/
def jsonDoubleField (read : Bytes → Option Int64) (body key : Bytes) : Option Int64 :=
  match findSub (needle key) body with
  | none => none
  | some t =>
      match findByte (· = chr ':') (t.drop (needle key).length) with
      | none => none
      | some u => read (u.tail.dropWhile isBlank)

/-- The X-Internal-Admin-Role header names superadmin anywhere in its text. -/
def namesSuperadmin (req : Http.Request) : Bool :=
  req.headers.entries.any fun kv =>
    kv.1.map tolower = str "x-internal-admin-role" && (findSub (str "superadmin") kv.2).isSome

/-- `is_valid_username` -/
def isValidUsername (s : Bytes) : Bool :=
  3 ≤ s.length && s.length ≤ 32 && s.all fun c =>
    (chr 'a' ≤ c && c ≤ chr 'z') || (chr '0' ≤ c && c ≤ chr '9') || c = chr '.' || c = chr '_' ||
      c = chr '-'

structure Quotas where
  maxExams : Int32
  maxConcurrentExams : Int32
  maxPdfSize : Int64
  maxStorageSize : Int64
  deriving DecidableEq

def quotasOf (env : UserEnv) (body : Bytes) : Quotas where
  maxExams := (jsonIntField body (str "max_exams")).getD 3
  maxConcurrentExams := (jsonIntField body (str "max_concurrent_exams")).getD 2
  maxPdfSize := (jsonDoubleField env.megabytes body (str "max_pdf_size_mb")).getD 1048576
  maxStorageSize := (jsonDoubleField env.megabytes body (str "max_storage_size_mb")).getD 52428800

/-- What is written of a user. -/
structure UserFields where
  name : Bytes
  email : Bytes
  instansi : Bytes
  role : Bytes
  package : Bytes
  quotas : Quotas
  expiresAt : Bytes
  deriving DecidableEq

structure UserRow extends UserFields where
  username : Bytes
  passwordHash : Bytes
  deriving DecidableEq

structure UserUpdate extends UserFields where
  id : Int32
  passwordHash : Option Bytes
  deriving DecidableEq

/-! ### `create_user` -/

def createRole (req : Http.Request) : Bytes :=
  let role := bodyField req (str "role")
  if role = [] then str "guru" else role

def createFields (env : UserEnv) (req : Http.Request) : UserFields where
  name := bodyField req (str "name")
  email := bodyField req (str "email")
  instansi := bodyField req (str "instansi")
  role := rolesWritten (createRole req = str "superadmin" || namesSuperadmin req) (createRole req)
    req.body
  package :=
    let package := bodyField req (str "package")
    if package = [] then str "free" else package
  quotas := quotasOf env req.body
  expiresAt := bodyField req (str "expires_at")

/-- Why a user is not created, whatever the database says. -/
def createError (env : UserEnv) (req : Http.Request) : Option Response :=
  let username := bodyField req (str "username")
  let role := createRole req
  if username = [] then some (failure 400 (str "username required"))
  else if !isValidUsername username then
    some (failure 400 (str "username 3-32 lowercase, dot, underscore, hyphen"))
  else if (bodyField req (str "password")).length < 8 then
    some (failure 400 (str "password minimal 8 karakter"))
  else if role = str "operator" ∧ !env.superSession then
    some (failure 403 (str "hanya superadmin bisa buat operator"))
  else if role ≠ str "guru" ∧ role ≠ str "pengawas" ∧ role ≠ str "operator" then
    some (failure 400 (str "role tidak valid"))
  else none

/-- The body of the answer is shorter without a database. -/
def created (id username role message : Bytes) : Response :=
  ⟨201, str "\x7b\"success\":true,\"ok\":true,\"id\":" ++ id ++ str ",\"username\":\"" ++
    username ++ str "\",\"role\":\"" ++ role ++ str "\"" ++ message ++ str "\x7d"⟩

def createUser (env : UserEnv) (req : Http.Request) : Response × Option UserRow :=
  let username := bodyField req (str "username")
  let fields := createFields env req
  match createError env req with
  | some error => (error, none)
  | none =>
      if env.connected then
        if env.usernameTaken then (failure 400 (str "Username sudah digunakan"), none)
        else if fields.email ≠ [] ∧ env.emailTaken then
          (failure 400 (str "Email sudah terdaftar. Gunakan email lain atau biarkan kosong."), none)
        else
          match env.hash with
          | none => (failure 500 (str "Gagal membuat hash password"), none)
          | some hash =>
              match env.written with
              | none => (failure 500 (str "Gagal menyimpan user"), none)
              | some id =>
                  (created id (jsonEscape username) (createRole req)
                    (str ",\"message\":\"User berhasil dibuat\""), some ⟨fields, username, hash⟩)
      else if env.pool.configured then (failure 503 (str "Database tidak tersedia"), none)
      else (created (str "1") username (createRole req) [], none)

/-! ### `edit_user` -/

def pathAfter (req : Http.Request) (marker : Bytes) : Bytes :=
  (findSub marker req.path).elim [] fun t => t.drop marker.length

def edited : Response :=
  ⟨200, str "\x7b\"success\":true,\"ok\":true,\"message\":\"User berhasil diperbarui\"\x7d"⟩

def editId (req : Http.Request) : Bytes :=
  let id := getParam req.params (str "id")
  if id = [] then pathAfter req (str "/admin/api/users/") else id

/-- The single role of an edit: superadmin becomes guru, unless the header names it. -/
def editRole (req : Http.Request) : Bytes :=
  let rl := bodyField req (str "role")
  let rl := if rl = str "superadmin" ∧ !namesSuperadmin req then str "guru" else rl
  if rl = [] then str "guru" else rl

def editFields (env : UserEnv) (req : Http.Request) : UserFields where
  name := bodyField req (str "name")
  email := bodyField req (str "email")
  instansi := bodyField req (str "instansi")
  role := rolesWritten (namesSuperadmin req) (editRole req) req.body
  package := bodyField req (str "package")
  quotas := quotasOf env req.body
  expiresAt := bodyField req (str "expires_at")

/-- What happens on the connection. -/
def editWith (env : UserEnv) (id : Int32) (req : Http.Request) : Response × Option UserUpdate :=
  let newPass := bodyField req (str "password")
  if !env.known then (failure 404 (str "user not found"), none)
  else if newPass ≠ [] ∧ env.hash.isNone then
    (failure 500 (str "Gagal membuat hash password"), none)
  else if env.written.isNone then (failure 500 (str "Gagal menyimpan user"), none)
  else
    (edited, some ⟨editFields env req, id, if newPass = [] then none else env.hash⟩)

def editUser (env : UserEnv) (req : Http.Request) : Response × Option UserUpdate :=
  let idStr := editId req
  let newPass := bodyField req (str "password")
  if idStr = [] ∨ chr '/' ∈ idStr then (failure 400 (str "id required"), none)
  else
    match stoi idStr with
    | none => (failure 400 (str "invalid id"), none)
    | some id =>
        if newPass ≠ [] ∧ newPass.length < 8 then
          (failure 400 (str "password minimal 8 karakter"), none)
        else if env.connected then editWith env id req
        else if env.pool.configured then (failure 503 (str "Database tidak tersedia"), none)
        else (edited, none)

/-! ### What is written -/

section

variable {env : UserEnv} {req : Http.Request}

theorem createRole_ne_superadmin (h : createError env req = none) :
    createRole req ≠ str "superadmin" := by
  intro hsuper
  have hrole : createRole req ≠ str "guru" ∧ createRole req ≠ str "pengawas" ∧
      createRole req ≠ str "operator" := by
    rw [hsuper]
    decide
  unfold createError at h
  dsimp only at h
  iterate 4
    split at h
    · cases h
  cases h

theorem role_of_createUser {row : UserRow} (h : (createUser env req).2 = some row) :
    row.role = rolesWritten (namesSuperadmin req) (createRole req) req.body := by
  unfold createUser at h
  dsimp only at h
  split at h
  next => cases h
  next haccepted =>
    have hrole : (createFields env req).role =
        rolesWritten (namesSuperadmin req) (createRole req) req.body := by
      simp only [createFields, decide_eq_false (createRole_ne_superadmin haccepted), Bool.false_or]
    split at h
    next =>
      iterate 4
        split at h
        · cases h
      cases h
      exact hrole
    next => split at h <;> cases h

theorem role_of_editUser {edit : UserUpdate} (h : (editUser env req).2 = some edit) :
    edit.role = rolesWritten (namesSuperadmin req) (editRole req) req.body := by
  unfold editUser at h
  dsimp only at h
  split at h
  · cases h
  split at h
  · cases h
  split at h
  · cases h
  split at h
  next =>
    unfold editWith at h
    dsimp only at h
    iterate 3
      split at h
      · cases h
    cases h
    rfl
  next => split at h <;> cases h

end

/-! ### A role that brings another one along -/

/-- The caller has the role superadmin, as the header says. -/
def HoldsSuperadmin (req : Http.Request) : Prop :=
  ∃ kv ∈ req.headers.entries, kv.1.map tolower = str "x-internal-admin-role" ∧
    Models.hasRole kv.2 (str "superadmin") = true

/-- No header, and a single role with quotes in it. -/
def smuggling : Http.Request where
  path := str "/admin/api/users/5"
  body := str "\x7b\"roles\":[],\"role\":\"x\\\",\\\"superadmin\"\x7d"

end ExamVan.Admin.Users
