import ExamVan.Auth.Otp
import ExamVan.Lib.Protocol

/-!
# Requests around an OTP

All requests that read or write accounts run at once on the map and the table. What a request knows
is whom it has read, when, and how its code compared; a code is counted as wrong, or an account
written, only with that knowledge.
-/

/-!
## The verification webhook

`webhook` takes a username and a code out of a chat message. It reads and activates the row in the
database itself, and counts wrong codes through the store.
-/

namespace ExamVan.Auth

open ByteString Db Http Queue

/-! ### The message -/

/-- `json_field_w`: string values only. -/
def jsonFieldW (body key : Bytes) : Bytes :=
  Api.memberFrom
    (fun
      | [] => none
      | c :: t => if c = chr '"' then (scanString t).map Prod.fst else none)
    key false false body

def containsCi (hay needle : Bytes) : Bool :=
  (findSub (needle.map tolower) (hay.map tolower)).isSome

def isCaptured (c : UInt8) : Bool :=
  (chr '0' ≤ c && c ≤ chr '9') || (chr 'A' ≤ c && c ≤ chr 'Z') || (chr 'a' ≤ c && c ≤ chr 'z') ||
    c = chr '_' || c = chr '.' || c = chr '-'

/-- The word after `label:`, in the spelling of the message. -/
def captureAfterCi (msg label : Bytes) : Bytes :=
  match findSub ((label ++ str ":").map tolower) (msg.map tolower) with
  | none => []
  | some t =>
      ((msg.drop (msg.length - t.length + label.length + 1)).dropWhile fun c =>
        c = chr ' ' || c = chr '\t').takeWhile isCaptured

def isDigitByte (c : UInt8) : Bool := chr '0' ≤ c && c ≤ chr '9'

def normalizePhone (num : Bytes) : Bytes :=
  match num.filter isDigitByte with
  | [] => []
  | c :: d => if c = chr '0' then str "62" ++ d else c :: d

/-- The field of the JSON body, or else of the form. -/
def messageField (req : Http.Request) (key : Bytes) : Bytes :=
  let value := jsonFieldW req.body key
  if value = [] then Admin.getParam (Api.parseForm req.body) key else value

def webhookUsername (req : Http.Request) : Bytes :=
  captureAfterCi (messageField req (str "message")) (str "username")

def webhookCode (req : Http.Request) : Bytes :=
  captureAfterCi (messageField req (str "message")) (str "kode")

/-! ### The handler -/

def respond (ok : Bool) (message : Bytes) : Response :=
  ⟨200, str "\x7b\"status\":" ++ str (if ok then "true" else "false") ++ str ",\"message\":\"" ++
    message ++ str "\"\x7d"⟩

def webhookError (status : Nat) (message : Bytes) : Response :=
  ⟨status, str "\x7b\"status\":false,\"message\":\"" ++ message ++ str "\"\x7d"⟩

def notVerifiable : Response := respond false (str "Akun tidak ditemukan atau kode kedaluwarsa")

/-- What `webhook` does on its connection. -/
def verifyByMessage (env : OtpEnv) (sender username code : Bytes) : AuthProg Response := do
  let found : Option Found ← AuthOp.ask (.select env.find username)
  match found with
  | none => return notVerifiable
  | some f =>
      if f.user.status ≠ pendingOtp then
        return notVerifiable
      let now : Int ← AuthOp.ask .clock
      if f.user.expired now then
        let _ ← updateUserOtp env.pick env.write username [] 0
        return respond false (str "Kode OTP sudah kedaluwarsa.")
      -- unlike `confirm`, an account without a code is not refused before
      let right := code == f.user.otpCode
      let _ : Unit ← AuthOp.ask (.compared f right)
      if !right then
        let attempts ← bumpOtpAttempts env.pick env.count username
        if kMaxOtpAttempts ≤ attempts then
          let _ ← updateUserOtp env.pick env.write username [] 0
          return respond false (str "Terlalu banyak percobaan. Minta kode baru.")
        return notVerifiable
      if normalizePhone sender ≠ normalizePhone f.whatsappNumber then
        return respond false (str "Nomor WhatsApp pengirim tidak cocok dengan yang didaftarkan")
      let ok : Bool ← AuthOp.ask (.write env.write .activate username)
      return if ok then respond true (str "Verifikasi sukses! Akun Anda telah aktif.")
        else respond false (str "Gagal mengaktifkan akun")

def webhook (env : OtpEnv) (req : Http.Request) : AuthProg Response :=
  let sender := messageField req (str "sender")
  let message := messageField req (str "message")
  if req.body = [] then pure (webhookError 400 (str "Payload tidak lengkap"))
  else if sender = [] ∨ message = [] then pure (respond false (str "Payload tidak lengkap"))
  else if !containsCi message (str "verifikasi pendaftaran") then
    pure (respond false (str "Pesan bukan verifikasi pendaftaran"))
  else if webhookUsername req = [] ∨ webhookCode req = [] then
    pure (respond false (str "Format pesan tidak sesuai template"))
  else if !env.find.pool.configured then pure (webhookError 500 (str "Database error"))
  else if !env.find.pool.reached then pure (webhookError 503 (str "Database tidak tersedia"))
  else verifyByMessage env sender (webhookUsername req) (webhookCode req)

end ExamVan.Auth

namespace ExamVan.Auth

open ByteString Db Http

/-! ### Requests that come without a code -/

/-- The statements of an action of the administration, on the row of `id` under `key`. -/
structure AdminAction where
  read : PgStep := {}
  write : PgStep := {}
  key : Bytes
  id : Int

/-- The answer of an action of the administration without a database. -/
def adminUnavailable (pg : PgStep) (message : Bytes) : Response :=
  if pg.pool.configured then failure 503 (str "Database tidak tersedia")
  else ⟨200, str "\x7b\"success\":true,\"ok\":true,\"message\":\"" ++ message ++ str "\"\x7d"⟩

def userToggleStatus (x : AdminAction) : AuthProg Response := do
  if !x.read.pool.reached then
    return adminUnavailable x.read (str "Status user diubah")
  let found : Option RegisteredUser ← AuthOp.ask (.selectById x.read x.key x.id)
  match found with
  | none => return failure 404 (str "user not found")
  | some u =>
      if u.username = str "superadmin" then
        return failure 400 (str "Status Super Admin tidak dapat diubah")
      if u.status = pendingOtp then
        return failure 400 (str "Akun pending verifikasi — gunakan tombol Verifikasi")
      let next := if u.status = active then suspended else active
      let ok : Bool ← AuthOp.ask (.setStatus x.write x.key x.id next false)
      return if ok then
          ⟨200, str "\x7b\"success\":true,\"ok\":true,\"status\":\"" ++ next ++
            str "\",\"message\":\"Status user diubah menjadi " ++ next ++ str "\"\x7d"⟩
        else failure 500 (str "Gagal mengubah status")

/-- Activation by hand. -/
def userVerify (x : AdminAction) : AuthProg Response := do
  if !x.read.pool.reached then
    return adminUnavailable x.read (str "User berhasil diverifikasi")
  let found : Option RegisteredUser ← AuthOp.ask (.selectById x.read x.key x.id)
  match found with
  | none => return failure 404 (str "user not found")
  | some u =>
      let done : Response :=
        ⟨200, str "\x7b\"success\":true,\"ok\":true,\"message\":\"User berhasil diverifikasi\"\x7d"⟩
      if u.status ≠ pendingOtp then
        return done
      let ok : Bool ← AuthOp.ask (.setStatus x.write x.key x.id active true)
      return if ok then done else failure 500 (str "Gagal verifikasi user")

/-- A registration whose fields are accepted. -/
structure Registration where
  username : Bytes
  email : Bytes
  passwordHash : Bytes
  emailVerify : Bool := true
  mailSent : Bool := true

def newUser (env : OtpEnv) (r : Registration) (now : Int) : RegisteredUser where
  username := r.username
  email := r.email
  passwordHash := r.passwordHash
  status := if r.emailVerify then pendingOtp else active
  otpCode := if r.emailVerify then env.newOtp else []
  otpExpiryEpoch := if r.emailVerify then now + kOtpTtlSec else 0

/-- `register_handler` from its uniqueness checks on: the error, if there is one. -/
def registerAccount (env : OtpEnv) (r : Registration) : AuthProg (Option Bytes) := do
  let named ← findRegisteredUser env.pick env.find r.username
  if named.isSome then
    return some (str "Username sudah terdaftar.")
  let addressed ← findRegisteredUserByEmail env.pick env.findByEmail r.email
  if addressed.isSome then
    return some (str "Email sudah terdaftar.")
  let now : Int ← AuthOp.ask .clock
  let inserted ← insertRegisteredUser env.pick env.write (newUser env r now)
  if !inserted then
    return some (str "Username atau email sudah terdaftar.")
  if r.emailVerify && !r.mailSent then
    let _ ← deleteRegisteredUser env.pick env.count r.username
    return some (str "Gagal mengirim email verifikasi. Coba lagi nanti.")
  return none

/-! ### Requests -/

inductive OtpRequest
  | confirm (env : OtpEnv) (req : Http.Request)
  | reset (env : OtpEnv) (req : Http.Request)
  | webhook (env : OtpEnv) (req : Http.Request)
  | resend (env : OtpEnv) (req : Http.Request)
  | forgot (env : OtpEnv) (req : Http.Request)
  | register (env : OtpEnv) (r : Registration)
  | toggleStatus (x : AdminAction)
  | verify (x : AdminAction)
  | wait (seconds : Nat)

inductive OtpReply
  | page (reply : AuthReply)
  | response (response : Response)
  | error (text : Option Bytes)
  | none
  deriving DecidableEq

def OtpRequest.program : OtpRequest → AuthProg OtpReply
  | .confirm env req => do return .page (← registerConfirmHandler env req)
  | .reset env req => do return .page (← resetPasswordHandler env req)
  | .webhook env req => do return .response (← Auth.webhook env req)
  | .resend env req => do return .page (← resendOtp env req)
  | .forgot env req => do return .page (← forgotPasswordHandler env req)
  | .register env r => do return .error (← registerAccount env r)
  | .toggleStatus x => do return .response (← userToggleStatus x)
  | .verify x => do return .response (← userVerify x)
  | .wait seconds => do
      let _ : Unit ← AuthOp.ask (.wait seconds)
      return .none

abbrev OtpJob := Job OtpRequest AuthOp AuthAns OtpReply

abbrev OtpJobs := Threads OtpJob AuthWorld

def otpRequests (lower : Bytes → Bytes) (w : AuthWorld) :
    System OtpJobs (Threads.Action OtpRequest) :=
  Job.system OtpRequest.program (AuthOp.perform lower) w

/-- The code of a request, for whom, and the status that it asks for. -/
structure Guess where
  username : Bytes
  code : Bytes
  status : Bytes
  deriving DecidableEq

def OtpRequest.guess? : OtpRequest → Option Guess
  | .confirm _ req => some ⟨queryUsername req, formField req (str "otp_code"), pendingOtp⟩
  | .reset _ req => some ⟨queryUsername req, formField req (str "otp_code"), active⟩
  | .webhook _ req => some ⟨webhookUsername req, webhookCode req, pendingOtp⟩
  | _ => none

/-! ### What a request knows -/

/-- How far a request has come. `counted` has the account that the attempt was counted for, and the
number that was answered. -/
inductive OtpStage
  | start
  | read (f : Found)
  | timed (f : Found) (now : Int)
  | right (f : Found) (now : Int)
  | wrong (f : Found)
  | counted (f : Found) (a : Account) (attempts : Int)
  | disabled (f : Found)
  deriving DecidableEq

/-- The status of an account that a write turns into a success. -/
def Write.required : Write → Option Bytes
  | .activate => some pendingOtp
  | .password _ => some active
  | .otp _ _ | .delete => none

def OtpStage.learn (lower : Bytes → Bytes) : OtpStage → (o : AuthOp) → AuthAns o → OtpStage
  | .start, .memFind _ _, found | .start, .select _ _, found => found.elim .start .read
  | .read f, .clock, now => .timed f now
  | .timed f now, .compared _ isRight, _ => if isRight then .right f now else .wrong f
  | .wrong f, .memBump username, n => .counted f (.mem username) n
  | .wrong f, .bump _ username, n => .counted f (.db (lower username)) n
  | .counted f _ _, .memWrite _ _, _ | .counted f _ _, .write _ _ _, _ => .disabled f
  | stage, _, _ => stage

/-- The code of the user who was read, in the required status and in time. -/
structure Passes (g : Guess) (f : Found) (now : Int) : Prop where
  status : f.user.status = g.status
  inTime : f.user.expired now = false
  code : g.code ≠ [] ∧ g.code = f.user.otpCode

/-- When a write by username may be made. -/
def MayWrite (g? : Option Guess) (stage : OtpStage) (change : Write) (username : Bytes) : Prop :=
  (∀ status ∈ change.required, ∃ g f now, g? = some g ∧ stage = .right f now ∧ Passes g f now ∧
    g.status = status ∧ g.username = username) ∧
  ∀ f a n, stage = .counted f a n → ∃ expiry, change = .otp [] expiry

/-- When an attempt may be counted. -/
def MayCount (g? : Option Guess) (stage : OtpStage) (username : Bytes) : Prop :=
  ∃ g f, g? = some g ∧ stage = .wrong f ∧ g.username = username

def OtpRequest.protocol (lower : Bytes → Bytes) (request : OtpRequest) :
    Protocol AuthOp AuthAns OtpStage where
  start := .start
  learn := OtpStage.learn lower
  allowed stage
    | .compared f isRight => ∃ g now, request.guess? = some g ∧ stage = .timed f now ∧
        (isRight = true ↔ g.code ≠ [] ∧ g.code = f.user.otpCode)
    | .memBump username | .bump _ username => MayCount request.guess? stage username
    | .memWrite change username | .write _ change username =>
        MayWrite request.guess? stage change username
    | .memAdd u | .insert _ u => u.otpAttempts = 0
    | _ => True

/-- A wrong code has been counted, and the fifth one has disabled the OTP. -/
def OtpStage.Ended : OtpStage → Prop
  | .wrong _ => False
  | .counted _ _ n => n < kMaxOtpAttempts
  | _ => True

/-! ### Requests keep to the protocol -/

/-- A request that has compared no code. -/
def OtpStage.Quiet : OtpStage → Prop
  | .start | .read _ | .timed _ _ => True
  | _ => False

/-- An operation that needs no knowledge. -/
def AuthOp.Harmless : AuthOp → Prop
  | .compared _ _ | .memBump _ | .bump _ _ => False
  | .memWrite change _ | .write _ change _ => change.required = none
  | .memAdd u | .insert _ u => u.otpAttempts = 0
  | _ => True

section

variable {lower : Bytes → Bytes} {request : OtpRequest} {stage : OtpStage} {α β : Type}
  {pick : Nat} {pg : PgStep} {username : Bytes} {o : AuthOp}

theorem OtpStage.Quiet.ended (h : stage.Quiet) : stage.Ended := by
  cases stage <;> trivial

theorem OtpStage.Quiet.learn (h : stage.Quiet) (ho : o.Harmless) (a : AuthAns o) :
    (stage.learn lower o a).Quiet := by
  cases stage with
  | start =>
      cases o with
      | memFind pick username | select pg username => cases a <;> trivial
      | _ => trivial
  | read f => cases o <;> trivial
  | timed f now =>
      cases o with
      | compared f' isRight => exact ho.elim
      | _ => trivial
  | _ => exact h.elim

theorem OtpStage.Quiet.allowed (h : stage.Quiet) (ho : o.Harmless) :
    (request.protocol lower).allowed stage o := by
  have hwrite : ∀ {change : Write} {username : Bytes}, change.required = none →
      MayWrite request.guess? stage change username := by
    intro change username hchange
    refine ⟨fun status hstatus => ?_, fun f a n hcounted => ?_⟩
    · rw [hchange] at hstatus
      cases hstatus
    · rw [hcounted] at h
      exact h.elim
  cases o with
  | compared f isRight | memBump username | bump pg username => exact ho.elim
  | memWrite change username | write pg change username => exact hwrite ho
  | memAdd u | insert pg u => exact ho
  | _ => trivial

/-- A program of harmless operations leaves a request that has compared no code as quiet as it was. -/
theorem follows_of_harmless {p : AuthProg α} (hp : p.All AuthOp.Harmless) (h : stage.Quiet) :
    (request.protocol lower).Follows (fun stage _ => stage.Quiet) stage p := by
  induction p generalizing stage with
  | done a => exact h
  | call o next ih => exact ⟨h.allowed hp.1, fun a => ih a (hp.2 a) (h.learn hp.1 a)⟩

/-! #### Harmless programs -/

theorem harmless_findRegisteredUser :
    (findRegisteredUser pick pg username).All AuthOp.Harmless := by
  refine ⟨trivial, fun found => ?_⟩
  cases found with
  | none => exact ⟨trivial, fun _ => trivial⟩
  | some f => trivial

theorem harmless_findRegisteredUserByEmail {email : Bytes} :
    (findRegisteredUserByEmail pick pg email).All AuthOp.Harmless := by
  refine ⟨trivial, fun found => ?_⟩
  cases found with
  | none => exact ⟨trivial, fun _ => trivial⟩
  | some f => trivial

theorem harmless_inEither {inMemory inDatabase : AuthProg α} (hm : inMemory.All AuthOp.Harmless)
    (hd : inDatabase.All AuthOp.Harmless) :
    (inEither pick username inMemory inDatabase).All AuthOp.Harmless := by
  refine ⟨trivial, fun found => ?_⟩
  cases found with
  | none => exact hd
  | some f => exact hm

theorem harmless_updateUserOtp {code : Bytes} {expiry : Int} :
    (updateUserOtp pick pg username code expiry).All AuthOp.Harmless :=
  harmless_inEither ⟨rfl, fun _ => trivial⟩ ⟨rfl, fun _ => trivial⟩

theorem harmless_deleteRegisteredUser :
    (deleteRegisteredUser pick pg username).All AuthOp.Harmless :=
  harmless_inEither ⟨rfl, fun _ => trivial⟩ ⟨rfl, fun _ => trivial⟩

theorem harmless_insertRegisteredUser {u : RegisteredUser} (hu : u.otpAttempts = 0) :
    (insertRegisteredUser pick pg u).All AuthOp.Harmless := by
  have hmem : (memInsert pick u).All AuthOp.Harmless := by
    unfold memInsert
    split
    · trivial
    · refine ⟨trivial, fun named => ?_⟩
      cases named with
      | some f => trivial
      | none =>
          refine ⟨trivial, fun addressed => ?_⟩
          cases addressed with
          | some f => trivial
          | none => exact ⟨hu, fun _ => trivial⟩
  refine ⟨hu, fun inserted => ?_⟩
  cases inserted with
  | true => trivial
  | false => exact hmem

theorem harmless_issueOtp {env : OtpEnv} {eligible : RegisteredUser → Bool} :
    (issueOtp env username eligible).All AuthOp.Harmless := by
  refine ⟨trivial, fun now => harmless_findRegisteredUser.bind fun found => ?_⟩
  cases found with
  | none => trivial
  | some f =>
      dsimp only
      split
      · exact harmless_updateUserOtp.bind fun _ => trivial
      · trivial

theorem harmless_registerAccount {env : OtpEnv} {r : Registration} :
    (registerAccount env r).All AuthOp.Harmless := by
  refine harmless_findRegisteredUser.bind fun named => ?_
  cases named with
  | some f => trivial
  | none =>
      refine harmless_findRegisteredUserByEmail.bind fun addressed => ?_
      cases addressed with
      | some f => trivial
      | none =>
          refine ⟨trivial, fun now => ?_⟩
          have hnew : (newUser env r now).otpAttempts = 0 := rfl
          refine (harmless_insertRegisteredUser hnew).bind fun inserted => ?_
          cases inserted with
          | false => trivial
          | true =>
              simp only [Bool.not_true, Bool.false_eq_true, ↓reduceIte]
              split
              · exact harmless_deleteRegisteredUser.bind fun _ => trivial
              · trivial

theorem harmless_userToggleStatus {x : AdminAction} :
    (userToggleStatus x).All AuthOp.Harmless := by
  simp only [userToggleStatus, AuthOp.ask, Prog.op_bind]
  split
  · trivial
  refine ⟨trivial, fun found => ?_⟩
  cases found with
  | none => trivial
  | some u =>
      dsimp only
      split
      · trivial
      split
      · trivial
      exact ⟨trivial, fun _ => trivial⟩

theorem harmless_userVerify {x : AdminAction} : (userVerify x).All AuthOp.Harmless := by
  simp only [userVerify, AuthOp.ask, Prog.op_bind]
  split
  · trivial
  refine ⟨trivial, fun found => ?_⟩
  cases found with
  | none => trivial
  | some u =>
      dsimp only
      split
      · trivial
      exact ⟨trivial, fun _ => trivial⟩

/-! #### Programs with a code -/

theorem learn_memFind (h : stage ≠ .start) (a : AuthAns (.memFind pick username)) :
    stage.learn lower (.memFind pick username) a = stage := by
  cases stage with
  | start => exact absurd rfl h
  | _ => rfl

theorem follows_inEither {post : OtpStage → α → Prop} {inMemory inDatabase : AuthProg α}
    (h : stage ≠ .start) (hm : (request.protocol lower).Follows post stage inMemory)
    (hd : (request.protocol lower).Follows post stage inDatabase) :
    (request.protocol lower).Follows post stage (inEither pick username inMemory inDatabase) := by
  refine ⟨trivial, fun found => ?_⟩
  have hstage : (request.protocol lower).learn stage (.memFind pick username) found = stage :=
    learn_memFind h found
  rw [hstage]
  cases found with
  | none => exact hd
  | some f => exact hm

theorem follows_findRegisteredUser :
    (request.protocol lower).Follows (fun stage found => stage = found.elim .start .read) .start
      (findRegisteredUser pick pg username) := by
  refine ⟨trivial, fun found => ?_⟩
  cases found with
  | none => exact ⟨trivial, fun _ => rfl⟩
  | some f => rfl

variable {g : Guess} {f : Found} {now : Int}

theorem follows_grant {change : Write} {status : Bytes} (hchange : change.required = some status)
    (hguess : request.guess? = some g) (hstatus : g.status = status) (hpasses : Passes g f now) :
    (request.protocol lower).Follows (fun stage _ => stage.Ended) (.right f now)
      (inEither pick g.username (AuthOp.ask (.memWrite change g.username))
        (AuthOp.ask (.write pg change g.username))) := by
  have hmay : MayWrite request.guess? (.right f now) change g.username := by
    refine ⟨fun status' hstatus' => ?_, fun f a n hcounted => by cases hcounted⟩
    rw [hchange, Option.mem_some_iff] at hstatus'
    exact ⟨g, f, now, hguess, rfl, hpasses, hstatus.trans hstatus', rfl⟩
  exact follows_inEither (by rintro ⟨⟩) ⟨hmay, fun _ => trivial⟩ ⟨hmay, fun _ => trivial⟩

theorem follows_bumpOtpAttempts (hguess : request.guess? = some g) :
    (request.protocol lower).Follows (fun stage n => ∃ a, stage = .counted f a n) (.wrong f)
      (bumpOtpAttempts pick pg g.username) := by
  have hmay : MayCount request.guess? (.wrong f) g.username := ⟨g, f, hguess, rfl, rfl⟩
  exact follows_inEither (by rintro ⟨⟩) ⟨hmay, fun n => ⟨_, rfl⟩⟩ ⟨hmay, fun n => ⟨_, rfl⟩⟩

theorem follows_disable {a : Account} {n : Int} :
    (request.protocol lower).Follows (fun stage _ => stage.Ended) (.counted f a n)
      (updateUserOtp pick pg username [] 0) := by
  have hmay : MayWrite request.guess? (.counted f a n) (.otp [] 0) username :=
    ⟨fun status hstatus => (by cases hstatus), fun _ _ _ _ => ⟨0, rfl⟩⟩
  exact follows_inEither (by rintro ⟨⟩) ⟨hmay, fun _ => trivial⟩ ⟨hmay, fun _ => trivial⟩

/-- Counting a wrong code, and disabling the OTP after the fifth one. -/
theorem follows_wrong {env : OtpEnv} {tooMany wrong : β} (hguess : request.guess? = some g) :
    (request.protocol lower).Follows (fun stage _ => stage.Ended) (.wrong f) (do
      let attempts ← bumpOtpAttempts env.pick env.count g.username
      if kMaxOtpAttempts ≤ attempts then
        let _ ← updateUserOtp env.pick env.write g.username [] 0
        return tooMany
      return wrong) := by
  refine (follows_bumpOtpAttempts hguess).bind ?_
  rintro _ attempts ⟨a, rfl⟩
  split
  next => exact follows_disable.bind fun _ _ hended => hended
  next hfew => exact not_le.mp hfew

theorem follows_checkOtp {env : OtpEnv} {c : OtpCheck} (hguess : request.guess? = some g)
    (hstatus : c.status = g.status) (hexpired : c.onExpired.All AuthOp.Harmless)
    (hright : ∀ f now, Passes g f now →
      (request.protocol lower).Follows (fun stage _ => stage.Ended) (.right f now) c.onRight) :
    (request.protocol lower).Follows (fun stage _ => stage.Ended) .start
      (checkOtp env g.username g.code c) := by
  simp only [checkOtp, AuthOp.ask, Prog.op_bind]
  refine follows_findRegisteredUser.bind ?_
  rintro _ found rfl
  cases found with
  | none => trivial
  | some f =>
      dsimp only
      split
      next => trivial
      next hpending =>
      refine ⟨trivial, fun now => ?_⟩
      dsimp only
      split
      next =>
        have hquiet : (OtpStage.timed f now).Quiet := trivial
        exact (follows_of_harmless hexpired hquiet).bind fun stage _ hquiet => hquiet.ended
      next hfresh =>
      refine ⟨⟨g, now, hguess, rfl, verifyCsrf_iff⟩, fun _ => ?_⟩
      cases hcode : verifyCsrf g.code f.user.otpCode with
      | true =>
          have hpasses : Passes g f now :=
            ⟨(not_not.mp fun hne => hpending (Or.inl hne)).trans hstatus,
              Bool.eq_false_iff.mpr hfresh, verifyCsrf_iff.mp hcode⟩
          exact (hright f now hpasses).bind fun _ _ hended => hended
      | false => exact follows_wrong hguess

theorem follows_verifyByMessage {env : OtpEnv} {sender : Bytes} (hguess : request.guess? = some g)
    (hstatus : g.status = pendingOtp) (hcode : g.code ≠ []) :
    (request.protocol lower).Follows (fun stage _ => stage.Ended) .start
      (verifyByMessage env sender g.username g.code) := by
  simp only [verifyByMessage, AuthOp.ask, Prog.op_bind]
  refine ⟨trivial, fun found => ?_⟩
  cases found with
  | none => trivial
  | some f =>
      dsimp only
      split
      next => trivial
      next hpending =>
      refine ⟨trivial, fun now => ?_⟩
      dsimp only
      split
      next =>
        have hquiet : (OtpStage.timed f now).Quiet := trivial
        exact (follows_of_harmless harmless_updateUserOtp hquiet).bind fun stage _ hquiet =>
          hquiet.ended
      next hfresh =>
      have hright : (g.code == f.user.otpCode) = true ↔ g.code ≠ [] ∧ g.code = f.user.otpCode := by
        rw [beq_iff_eq, and_iff_right hcode]
      refine ⟨⟨g, now, hguess, rfl, hright⟩, fun _ => ?_⟩
      cases hsame : g.code == f.user.otpCode with
      | false => exact follows_wrong hguess
      | true =>
          simp only [Bool.not_true, Bool.false_eq_true, ↓reduceIte]
          split
          · trivial
          have hpasses : Passes g f now :=
            ⟨(not_not.mp hpending).trans hstatus.symm, Bool.eq_false_iff.mpr hfresh, hright.mp hsame⟩
          refine ⟨⟨fun status hrequired => ?_, fun f a n hcounted => by cases hcounted⟩,
            fun _ => trivial⟩
          cases hrequired
          exact ⟨g, f, now, hguess, rfl, hpasses, hstatus, rfl⟩

theorem follows_registerConfirmHandler {env : OtpEnv} {req : Http.Request} :
    ((OtpRequest.confirm env req).protocol lower).Follows (fun stage _ => stage.Ended) .start
      (registerConfirmHandler env req) := by
  have hguess : (OtpRequest.confirm env req).guess? =
      some ⟨queryUsername req, formField req (str "otp_code"), pendingOtp⟩ := rfl
  unfold registerConfirmHandler
  dsimp only
  split
  · trivial
  split
  · trivial
  refine follows_checkOtp hguess rfl harmless_deleteRegisteredUser fun f now hpasses => ?_
  have hchange : Write.activate.required = some pendingOtp := rfl
  exact follows_grant hchange hguess rfl hpasses

theorem follows_resetPasswordHandler {env : OtpEnv} {req : Http.Request} :
    ((OtpRequest.reset env req).protocol lower).Follows (fun stage _ => stage.Ended) .start
      (resetPasswordHandler env req) := by
  have hguess : (OtpRequest.reset env req).guess? =
      some ⟨queryUsername req, formField req (str "otp_code"), active⟩ := rfl
  unfold resetPasswordHandler
  dsimp only
  split
  · trivial
  split
  · trivial
  split
  · trivial
  refine follows_checkOtp hguess rfl harmless_updateUserOtp fun f now hpasses => ?_
  have hchange : (Write.password env.newHash).required = some active := rfl
  exact follows_grant hchange hguess rfl hpasses

theorem follows_webhook {env : OtpEnv} {req : Http.Request} :
    ((OtpRequest.webhook env req).protocol lower).Follows (fun stage _ => stage.Ended) .start
      (webhook env req) := by
  have hguess : (OtpRequest.webhook env req).guess? =
      some ⟨webhookUsername req, webhookCode req, pendingOtp⟩ := rfl
  unfold webhook
  dsimp only
  split
  · trivial
  split
  · trivial
  split
  · trivial
  split
  · trivial
  next hcaptured =>
  split
  · trivial
  split
  · trivial
  exact follows_verifyByMessage hguess rfl fun hnil => hcaptured (Or.inr hnil)

theorem harmless_resendOtp {env : OtpEnv} {req : Http.Request} :
    (resendOtp env req).All AuthOp.Harmless := by
  unfold resendOtp
  dsimp only
  split
  · trivial
  split
  · trivial
  exact harmless_issueOtp.bind fun _ => trivial

theorem harmless_forgotPasswordHandler {env : OtpEnv} {req : Http.Request} :
    (forgotPasswordHandler env req).All AuthOp.Harmless := by
  unfold forgotPasswordHandler
  dsimp only
  split
  · trivial
  split
  · trivial
  split
  · trivial
  split
  · trivial
  exact harmless_issueOtp.bind fun _ => trivial

/-- Every request keeps to its protocol. -/
theorem OtpRequest.follows (request : OtpRequest) :
    (request.protocol lower).Follows (fun stage _ => stage.Ended) .start request.program := by
  have hharmless : ∀ {γ : Type} {p : AuthProg γ} {f : γ → OtpReply}, p.All AuthOp.Harmless →
      (request.protocol lower).Follows (fun stage _ => stage.Ended) .start
        (p >>= fun c => pure (f c)) := by
    intro γ p f hp
    have hstart : OtpStage.start.Quiet := trivial
    exact (follows_of_harmless hp hstart).bind fun stage _ hquiet => hquiet.ended
  cases request with
  | confirm env req => exact follows_registerConfirmHandler.bind fun _ _ hended => hended
  | reset env req => exact follows_resetPasswordHandler.bind fun _ _ hended => hended
  | webhook env req => exact follows_webhook.bind fun _ _ hended => hended
  | resend env req => exact hharmless harmless_resendOtp
  | forgot env req => exact hharmless harmless_forgotPasswordHandler
  | register env r => exact hharmless harmless_registerAccount
  | toggleStatus x => exact hharmless harmless_userToggleStatus
  | verify x => exact hharmless harmless_userVerify
  | wait seconds => exact ⟨trivial, fun _ => trivial⟩

end

end ExamVan.Auth
