import ExamVan.Db.Pool
import ExamVan.Lib.Bytes
import ExamVan.Lib.OrderedMap
import ExamVan.Lib.Prog

/-!
# Registered users

A user is in the memory map of the process or in `admin_users`. The functions of the store look into
the map first, up to the case of the letters, and go to the database if nobody is found there. Every
lookup and every statement is an operation of its own: another request may come in between.
-/

namespace ExamVan.Auth

open ByteString Db

def pendingOtp : Bytes := str "pending_otp"

def active : Bytes := str "active"

def suspended : Bytes := str "suspended"

structure RegisteredUser where
  id : Int := 0
  username : Bytes
  email : Bytes := []
  passwordHash : Bytes := []
  status : Bytes := []
  otpCode : Bytes := []
  otpAttempts : Int := 0
  /-- seconds; 0 stands for none -/
  otpExpiryEpoch : Int := 0
  deriving DecidableEq

abbrev UserMap := OrderedMap Bytes RegisteredUser

/-- A row of `admin_users`, with null read as the empty text or 0. -/
structure AdminRow where
  user : RegisteredUser
  whatsappNumber : Bytes := []
  deriving DecidableEq

def ciEq (a b : Bytes) : Bool :=
  a.length == b.length && (a.zip b).all fun p => tolower p.1 == tolower p.2

theorem ciEq_iff {a b : Bytes} : ciEq a b = true ↔ a.map tolower = b.map tolower := by
  induction a generalizing b with
  | nil => cases b <;> simp [ciEq]
  | cons c a ih =>
      cases b with
      | nil => simp [ciEq]
      | cons d b =>
          have htail := @ih b
          simp only [ciEq, Bool.and_eq_true, beq_iff_eq, List.all_eq_true] at htail
          simp only [ciEq, List.length_cons, List.zip_cons_cons, List.all_cons, Bool.and_eq_true,
            beq_iff_eq, Nat.add_right_cancel_iff, List.all_eq_true, List.map_cons, List.cons.injEq,
            ← htail]
          exact and_left_comm

/-! ### Where a user stands -/

inductive Account
  | mem (key : Bytes)
  | db (key : Bytes)
  deriving DecidableEq

/-- `g_users`, and `admin_users` by `LOWER(username)`: both ways to make a row take lowercase
usernames only. `issue` counts how often the OTP of an account has been written. -/
structure AuthWorld where
  users : UserMap := OrderedMap.empty
  nextId : Int := 100
  rows : OrderedMap Bytes AdminRow := OrderedMap.empty
  nextRow : Int := 1
  clock : Int := 0
  issue : Account → Nat := fun _ => 0

namespace AuthWorld

variable (w : AuthWorld)

def user? : Account → Option RegisteredUser
  | .mem key => w.users.find? key
  | .db key => (w.rows.find? key).map AdminRow.user

def modify (f : RegisteredUser → Option RegisteredUser) : Account → AuthWorld
  | .mem key => { w with users := w.users.modify key f }
  | .db key =>
      { w with rows := w.rows.modify key fun row => (f row.user).map fun u => { row with user := u } }

/-- The OTP of the account has been written. -/
def reissue (a : Account) : AuthWorld :=
  { w with issue := Function.update w.issue a (w.issue a + 1) }

/-- The part of `mem_insert` after its checks, under the lock. -/
def memAdd (u : RegisteredUser) : Bool × AuthWorld :=
  match w.users.find? u.username with
  | some _ => (false, w)
  | none =>
      let id := if u.id = 0 then w.nextId else u.id
      let nextId := if u.id = 0 then w.nextId + 1 else w.nextId
      let users := w.users.insert u.username { u with id := id }
      (true, { w with users := users, nextId := nextId }.reissue (.mem u.username))

/-- The `INSERT` of a registration. -/
def insertRow (lower : Bytes → Bytes) (u : RegisteredUser) : Bool × AuthWorld :=
  let w' := { w with nextRow := w.nextRow + 1 }
  match w.rows.find? (lower u.username) with
  | some _ => (false, w')
  | none =>
      let row :=
        { u with
          id := w.nextRow
          otpAttempts := 0
          otpExpiryEpoch := if 0 < u.otpExpiryEpoch then u.otpExpiryEpoch else 0 }
      (true, { w' with rows := w.rows.insert (lower u.username) { user := row } }.reissue
        (.db (lower u.username)))

end AuthWorld

/-! ### Operations -/

/-- An `UPDATE` or `DELETE` by username. -/
inductive Write
  | otp (code : Bytes) (expiry : Int)
  | activate
  | password (hash : Bytes)
  | delete
  deriving DecidableEq

def Write.on : Write → RegisteredUser → Option RegisteredUser
  | .otp code expiry, u =>
      some { u with otpCode := code, otpExpiryEpoch := expiry, otpAttempts := 0 }
  | .activate, u => some { u with status := active, otpCode := [], otpExpiryEpoch := 0 }
  | .password hash, u =>
      some { u with passwordHash := hash, otpCode := [], otpExpiryEpoch := 0, otpAttempts := 0 }
  | .delete, _ => none

/-- `otp_attempts + 1`. -/
def RegisteredUser.bumped (u : RegisteredUser) : RegisteredUser :=
  { u with otpAttempts := u.otpAttempts + 1 }

/-- A new status, and with `clear` no OTP. -/
def RegisteredUser.withStatus (u : RegisteredUser) (status : Bytes) (clear : Bool) :
    RegisteredUser :=
  { u with
    status := status
    otpCode := if clear then [] else u.otpCode
    otpExpiryEpoch := if clear then 0 else u.otpExpiryEpoch }

/-- What a statement meets: the pool, and PostgreSQL's answer. -/
structure PgStep where
  pool : PoolOutcome := {}
  succeeds : Bool := true
  deriving DecidableEq

def PgStep.runs (pg : PgStep) : Bool := pg.pool.reached && pg.succeeds

/-- A user as a lookup finds it, with the number of the OTP. -/
structure Found where
  account : Account
  issue : Nat
  user : RegisteredUser
  whatsappNumber : Bytes := []
  deriving DecidableEq

/-- `pick` is the one of several matches that the traversal of the map meets first. A comparison of
a code is an operation, so that a run shows when it is made. -/
inductive AuthOp
  | memFind (pick : Nat) (username : Bytes)
  | memFindByEmail (pick : Nat) (email : Bytes)
  | memAdd (u : RegisteredUser)
  | memWrite (change : Write) (username : Bytes)
  | memBump (username : Bytes)
  | select (pg : PgStep) (username : Bytes)
  | selectByEmail (pg : PgStep) (pick : Nat) (email : Bytes)
  | insert (pg : PgStep) (u : RegisteredUser)
  | write (pg : PgStep) (change : Write) (username : Bytes)
  | bump (pg : PgStep) (username : Bytes)
  | selectById (pg : PgStep) (key : Bytes) (id : Int)
  | setStatus (pg : PgStep) (key : Bytes) (id : Int) (status : Bytes) (clear : Bool)
  | clock
  | wait (seconds : Nat)
  | compared (f : Found) (right : Bool)
  deriving DecidableEq

/-- What puts an account into the map, or changes one there. -/
def AuthOp.WritesMemory : AuthOp → Prop
  | .memAdd _ | .memWrite _ _ | .memBump _ => True
  | _ => False

abbrev AuthAns : AuthOp → Type
  | .memFind _ _ | .memFindByEmail _ _ | .select _ _ | .selectByEmail _ _ _ => Option Found
  | .memAdd _ | .memWrite _ _ | .insert _ _ | .write _ _ _ | .setStatus _ _ _ _ _ => Bool
  | .memBump _ | .bump _ _ | .clock => Int
  | .selectById _ _ _ => Option RegisteredUser
  | .wait _ | .compared _ _ => Unit

abbrev AuthProg := Prog AuthOp AuthAns

abbrev AuthOp.ask (o : AuthOp) : AuthProg (AuthAns o) := Prog.op o

namespace AuthWorld

variable (w : AuthWorld) (lower : Bytes → Bytes)

/-- The matching entry of the map that is met first. -/
def memMatch (pick : Nat) (p : Bytes × RegisteredUser → Bool) : Option Found :=
  let found := w.users.entries.filter p
  found[pick % found.length]?.map fun entry =>
    { account := .mem entry.1, issue := w.issue (.mem entry.1), user := entry.2 }

/-- A row with the key that it has been found under. -/
def foundRow (entry : Bytes × AdminRow) : Found where
  account := .db entry.1
  issue := w.issue (.db entry.1)
  user := entry.2.user
  whatsappNumber := entry.2.whatsappNumber

def selectByEmail (pick : Nat) (email : Bytes) : Option Found :=
  let found := w.rows.entries.filter fun entry =>
    lower entry.2.user.email == lower email && entry.2.user.email != []
  found[pick % found.length]?.map w.foundRow

/-- An attempt is counted, and the new number answered, or -1 if there is no such user. -/
def bumpAt (a : Account) : Int × AuthWorld :=
  ((w.user? a).elim (-1) fun u => u.otpAttempts + 1, w.modify (fun u => some u.bumped) a)

end AuthWorld

/-- `LOWER` is PostgreSQL's. -/
def AuthOp.perform (lower : Bytes → Bytes) : (o : AuthOp) → AuthWorld → AuthAns o × AuthWorld
  | .memFind pick username, w => (w.memMatch pick fun entry => ciEq entry.1 username, w)
  | .memFindByEmail pick email, w =>
      (w.memMatch pick fun entry => entry.2.email != [] && ciEq entry.2.email email, w)
  | .memAdd u, w => w.memAdd u
  | .memWrite change username, w =>
      ((w.user? (.mem username)).isSome, (w.modify change.on (.mem username)).reissue (.mem username))
  | .memBump username, w => w.bumpAt (.mem username)
  | .select pg username, w =>
      (if pg.runs then
          (w.rows.find? (lower username)).map fun row => w.foundRow (lower username, row)
        else none, w)
  | .selectByEmail pg pick email, w => (if pg.runs then w.selectByEmail lower pick email else none, w)
  | .insert pg u, w => if pg.runs then w.insertRow lower u else (false, w)
  | .write pg change username, w =>
      if pg.runs then
        (true, (w.modify change.on (.db (lower username))).reissue (.db (lower username)))
      else (false, w)
  | .bump pg username, w => if pg.runs then w.bumpAt (.db (lower username)) else (-1, w)
  | .selectById pg key id, w =>
      (if pg.runs then (w.user? (.db key)).filter fun u => u.id = id else none, w)
  | .setStatus pg key id status clear, w =>
      if pg.runs then
        match (w.user? (.db key)).filter fun u => u.id = id with
        | none => (true, w)
        | some _ =>
            let w' := w.modify (fun u => some (u.withStatus status clear)) (.db key)
            (true, if clear then w'.reissue (.db key) else w')
      else (false, w)
  | .clock, w => (w.clock, w)
  | .wait seconds, w => ((), { w with clock := w.clock + seconds })
  | .compared _ _, w => ((), w)

/-! ### The functions of the store -/

section

variable (pick : Nat) (pg : PgStep) (username : Bytes)

def memUpdateOtp (code : Bytes) (expiry : Int) : AuthProg Bool :=
  AuthOp.ask (.memWrite (.otp code expiry) username)

def memActivate : AuthProg Bool := AuthOp.ask (.memWrite .activate username)

def memBumpAttempts : AuthProg Int := AuthOp.ask (.memBump username)

def memUpdatePassword (hash : Bytes) : AuthProg Bool := AuthOp.ask (.memWrite (.password hash) username)

def memDelete : AuthProg Bool := AuthOp.ask (.memWrite .delete username)

/-- Its checks and its insertion take the lock one after the other. -/
def memInsert (u : RegisteredUser) : AuthProg Bool :=
  if u.username = [] ∨ u.passwordHash = [] then pure false
  else do
    let named : Option Found ← AuthOp.ask (.memFind pick u.username)
    if named.isSome then
      return false
    let addressed : Option Found ← AuthOp.ask (.memFindByEmail pick u.email)
    if addressed.isSome then
      return false
    AuthOp.ask (.memAdd u)

def findRegisteredUser : AuthProg (Option Found) := do
  let inMemory : Option Found ← AuthOp.ask (.memFind pick username)
  match inMemory with
  | some f => return some f
  | none => AuthOp.ask (.select pg username)

def findRegisteredUserByEmail (email : Bytes) : AuthProg (Option Found) := do
  let inMemory : Option Found ← AuthOp.ask (.memFindByEmail pick email)
  match inMemory with
  | some f => return some f
  | none => AuthOp.ask (.selectByEmail pg pick email)

def insertRegisteredUser (u : RegisteredUser) : AuthProg Bool := do
  let inserted : Bool ← AuthOp.ask (.insert pg u)
  if inserted then
    return true
  memInsert pick u

/-- In memory if the map has the user, else in the database. -/
def inEither {α : Type} (inMemory inDatabase : AuthProg α) : AuthProg α := do
  let found : Option Found ← AuthOp.ask (.memFind pick username)
  if found.isSome then inMemory else inDatabase

def updateUserOtp (code : Bytes) (expiry : Int) : AuthProg Bool :=
  inEither pick username (memUpdateOtp username code expiry)
    (AuthOp.ask (.write pg (.otp code expiry) username))

def activateRegisteredUser : AuthProg Bool :=
  inEither pick username (memActivate username) (AuthOp.ask (.write pg .activate username))

/-- The number of attempts after this one, or -1. -/
def bumpOtpAttempts : AuthProg Int :=
  inEither pick username (memBumpAttempts username) (AuthOp.ask (.bump pg username))

def updateUserPassword (hash : Bytes) : AuthProg Bool :=
  inEither pick username (memUpdatePassword username hash)
    (AuthOp.ask (.write pg (.password hash) username))

def deleteRegisteredUser : AuthProg Bool :=
  inEither pick username (memDelete username) (AuthOp.ask (.write pg .delete username))

end

end ExamVan.Auth
