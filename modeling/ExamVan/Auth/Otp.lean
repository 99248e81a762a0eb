import ExamVan.Admin.CreateExam
import ExamVan.Auth.UserStore

/-!
# One-time passwords

`register_confirm_handler` and `reset_password_handler` read the user, compare the code with the one
they have read, and then count a wrong code or write the account. `resend_otp` and
`forgot_password_handler` issue a new code.
-/

namespace ExamVan.Auth

open ByteString Db Http Queue

def kMaxOtpAttempts : Int := 5

def kOtpTtlSec : Int := 15 * 60

def kResendCooldownSec : Int := 60

/-! ### Requests and replies -/

/-- What a request meets: the CSRF check, the rate limit, Turnstile, the statements that read the
user, count an attempt and write the account, and what is drawn and hashed. A registration reads by
email too. -/
structure OtpEnv where
  csrf : Bool := true
  allowed : Bool := true
  turnstile : Bool := true
  pick : Nat := 0
  find : PgStep := {}
  findByEmail : PgStep := {}
  count : PgStep := {}
  write : PgStep := {}
  newOtp : Bytes := []
  newHash : Bytes := []

inductive AuthReply
  | json (response : Response)
  | redirect (status : Nat) (location : Bytes)
  | page (status : Nat) (name username error : Bytes)
  deriving DecidableEq

def wantsJson (req : Http.Request) : Bool :=
  (findSub (str "application/json") (Admin.getHdr req (str "Accept"))).isSome ||
    Admin.getHdr req (str "X-Requested-With") = str "XMLHttpRequest" ||
    (findSub (str "application/json") (Admin.getHdr req (str "Content-Type"))).isSome

/-- An error as JSON, or else `html`. -/
def refuse (req : Http.Request) (status : Nat) (error : Bytes) (html : AuthReply) : AuthReply :=
  if wantsJson req then .json (plainError status error) else html

def successResponse (req : Http.Request) (location json : Bytes) : AuthReply :=
  if wantsJson req then .json ⟨200, json⟩ else .redirect 303 location

def csrfMismatch : AuthReply := .json (plainError 403 (str "CSRF token mismatch"))

def upperHex (n : UInt8) : UInt8 := if n < 10 then chr '0' + n else chr 'A' + (n - 10)

def isUnreserved (c : UInt8) : Bool :=
  (chr '0' ≤ c && c ≤ chr '9') || (chr 'A' ≤ c && c ≤ chr 'Z') || (chr 'a' ≤ c && c ≤ chr 'z') ||
    c = chr '-' || c = chr '_' || c = chr '.' || c = chr '~'

def urlEncode (s : Bytes) : Bytes :=
  s.flatMap fun c => if isUnreserved c then [c] else [chr '%', upperHex (c / 16), upperHex (c % 16)]

def queryUsername (req : Http.Request) : Bytes :=
  Admin.getParam (Api.parseForm req.query) (str "username")

def formField (req : Http.Request) (key : Bytes) : Bytes :=
  Admin.getParam (Api.parseForm req.body) key

/-! ### Comparing a code -/

/-- `verify_csrf`: all bytes are compared, wherever they differ. -/
def verifyCsrf (a b : Bytes) : Bool :=
  a != [] && b != [] && a.length == b.length &&
    (a.zip b).foldl (fun diff p => diff ||| (p.1 ^^^ p.2)) 0 == 0

theorem foldl_or_eq_zero_iff {l : List UInt8} {n : UInt8} :
    l.foldl (· ||| ·) n = 0 ↔ n = 0 ∧ ∀ c ∈ l, c = 0 := by
  induction l generalizing n with
  | nil => simp
  | cons c l ih => simp [ih, UInt8.or_eq_zero_iff, and_assoc]

theorem zip_all_eq_iff {a b : Bytes} (h : a.length = b.length) :
    (∀ c ∈ (a.zip b).map fun p => p.1 ^^^ p.2, c = 0) ↔ a = b := by
  induction a generalizing b with
  | nil => simp [List.length_eq_zero_iff.mp h.symm]
  | cons c a ih =>
      cases b with
      | nil => cases h
      | cons d b =>
          rw [List.zip_cons_cons, List.map_cons, List.forall_mem_cons, ih (Nat.succ.inj h),
            UInt8.xor_eq_zero_iff, List.cons.injEq]

/-- A code passes if it is the stored one and not empty. -/
theorem verifyCsrf_iff {a b : Bytes} : verifyCsrf a b = true ↔ a ≠ [] ∧ a = b := by
  have hfold : (a.zip b).foldl (fun diff p => diff ||| (p.1 ^^^ p.2)) (0 : UInt8) =
      ((a.zip b).map fun p => p.1 ^^^ p.2).foldl (· ||| ·) 0 := List.foldl_map.symm
  simp only [verifyCsrf, Bool.and_eq_true, bne_iff_ne, beq_iff_eq, hfold, foldl_or_eq_zero_iff,
    true_and]
  constructor
  · rintro ⟨⟨⟨ha, -⟩, hlength⟩, hzero⟩
    exact ⟨ha, (zip_all_eq_iff hlength).mp hzero⟩
  · rintro ⟨ha, rfl⟩
    exact ⟨⟨⟨ha, ha⟩, rfl⟩, (zip_all_eq_iff rfl).mpr rfl⟩

/-- Later than its expiry, if it has one. -/
def RegisteredUser.expired (u : RegisteredUser) (now : Int) : Bool :=
  0 < u.otpExpiryEpoch && u.otpExpiryEpoch < now

/-- What confirming and resetting do differently: the status they ask for, what they write, and what
they answer. -/
structure OtpCheck where
  status : Bytes
  onExpired : AuthProg Bool
  onRight : AuthProg Bool
  refused : AuthReply
  expired : AuthReply
  tooMany : AuthReply
  wrong : AuthReply
  right : AuthReply

/-- A code is checked against the user as it has been read. -/
def checkOtp (env : OtpEnv) (username code : Bytes) (c : OtpCheck) : AuthProg AuthReply := do
  let found ← findRegisteredUser env.pick env.find username
  match found with
  | none => return c.refused
  | some f =>
      if f.user.status ≠ c.status ∨ f.user.otpCode = [] then
        return c.refused
      let now : Int ← AuthOp.ask .clock
      if f.user.expired now then
        let _ ← c.onExpired
        return c.expired
      let right := verifyCsrf code f.user.otpCode
      let _ : Unit ← AuthOp.ask (.compared f right)
      if right then
        let _ ← c.onRight
        return c.right
      -- decided by the number after the increment, not by the one that was read
      let attempts ← bumpOtpAttempts env.pick env.count username
      if kMaxOtpAttempts ≤ attempts then
        let _ ← updateUserOtp env.pick env.write username [] 0
        return c.tooMany
      return c.wrong

/-! ### The handlers -/

/-- An expired code deletes the account. -/
def confirmCheck (env : OtpEnv) (req : Http.Request) (username : Bytes) : OtpCheck where
  status := pendingOtp
  onExpired := deleteRegisteredUser env.pick env.write username
  onRight := activateRegisteredUser env.pick env.write username
  refused := refuse req 400 (str "Kode OTP salah atau sudah tidak berlaku.")
    (.redirect 302 (str "/login"))
  expired := refuse req 400 (str "Kode OTP kedaluwarsa. Silakan daftar ulang.")
    (.redirect 302 (str "/login"))
  tooMany := refuse req 400 (str "Terlalu banyak percobaan. Minta kode baru.")
    (.redirect 302 (str "/login"))
  wrong := refuse req 400 (str "Kode OTP salah atau sudah tidak berlaku.")
    (.page 400 (str "register_confirm") username (str "Kode OTP salah."))
  right := successResponse req (str "/login") (str "\x7b\"success\":true,\"next\":\"/login\"\x7d")

def registerConfirmHandler (env : OtpEnv) (req : Http.Request) : AuthProg AuthReply :=
  let username := queryUsername req
  let tooOften := str "Terlalu banyak percobaan. Coba lagi nanti."
  if username = [] ∨ !env.csrf then pure csrfMismatch
  else if !env.allowed then
    pure (refuse req 429 tooOften (.page 429 (str "register_confirm") username tooOften))
  else checkOtp env username (formField req (str "otp_code")) (confirmCheck env req username)

/-- Why a reset is refused before the user is read. -/
def resetError (env : OtpEnv) (req : Http.Request) : Option Bytes :=
  let password := formField req (str "password")
  let passwordConfirm := formField req (str "password_confirm")
  if formField req (str "otp_code") = [] ∨ password = [] ∨ passwordConfirm = [] then
    some (str "OTP dan password baru wajib diisi.")
  else if password.length < 8 then some (str "Password minimal 8 karakter.")
  else if 72 < password.length then some (str "Password maksimal 72 karakter (batas bcrypt).")
  else if password ≠ passwordConfirm then some (str "Konfirmasi password tidak cocok.")
  else if !env.turnstile then some (str "Verifikasi keamanan gagal. Coba lagi.")
  else none

def resetPage (req : Http.Request) (status : Nat) (username error : Bytes) : AuthReply :=
  refuse req status error (.page status (str "reset_password") username error)

/-- An expired code is taken away. -/
def resetCheck (env : OtpEnv) (req : Http.Request) (username : Bytes) : OtpCheck where
  status := active
  onExpired := updateUserOtp env.pick env.write username [] 0
  onRight := updateUserPassword env.pick env.write username env.newHash
  refused := resetPage req 400 username (str "Kode OTP salah atau sudah tidak berlaku.")
  expired := resetPage req 400 username (str "Kode OTP sudah kedaluwarsa.")
  tooMany := resetPage req 400 username (str "Terlalu banyak percobaan. Minta kode baru.")
  wrong := resetPage req 400 username (str "Kode OTP salah atau sudah tidak berlaku.")
  right := successResponse req (str "/login")
    (str "\x7b\"success\":true,\"message\":\"Password berhasil diubah. Silakan login.\"," ++
      str "\"next\":\"/login\"\x7d")

def resetPasswordHandler (env : OtpEnv) (req : Http.Request) : AuthProg AuthReply :=
  let username := queryUsername req
  if username = [] ∨ !env.csrf then pure csrfMismatch
  else if !env.allowed then
    pure (resetPage req 429 username (str "Terlalu banyak percobaan. Coba lagi nanti."))
  else
    match resetError env req with
    | some error => pure (resetPage req 400 username error)
    | none => checkOtp env username (formField req (str "otp_code")) (resetCheck env req username)

/-- No code is there, or the last one was made a minute ago. -/
def RegisteredUser.cooledDown (u : RegisteredUser) (now : Int) : Bool :=
  u.otpCode = [] || u.otpExpiryEpoch ≤ 0 || u.otpExpiryEpoch - kOtpTtlSec + kResendCooldownSec ≤ now

/-- A new code for a user that `eligible` accepts; the mail is left out. -/
def issueOtp (env : OtpEnv) (username : Bytes) (eligible : RegisteredUser → Bool) :
    AuthProg Unit := do
  let now : Int ← AuthOp.ask .clock
  let found ← findRegisteredUser env.pick env.find username
  match found with
  | none => return ()
  | some f =>
      if eligible f.user && f.user.cooledDown now then
        let _ ← updateUserOtp env.pick env.write username env.newOtp (now + kOtpTtlSec)
        return ()
      return ()

def resendOtp (env : OtpEnv) (req : Http.Request) : AuthProg AuthReply := do
  let username := queryUsername req
  if username = [] ∨ !env.csrf then
    return csrfMismatch
  if !env.allowed then
    return .json (plainError 429 (str "Terlalu banyak permintaan. Coba lagi nanti."))
  issueOtp env username fun u => u.status = pendingOtp
  return .json ⟨200, str "\x7b\"success\":true,\"message\":\"Kode verifikasi telah dikirim.\"\x7d"⟩

def forgotPasswordHandler (env : OtpEnv) (req : Http.Request) : AuthProg AuthReply := do
  let username := Admin.sanitizeStudentInput ((formField req (str "username")).map tolower)
  let page := fun (status : Nat) (error : Bytes) =>
    refuse req status error (.page status (str "forgot_password") [] error)
  let next := str "/reset-password?username=" ++ urlEncode username
  if !env.csrf then
    return csrfMismatch
  if username = [] then
    return page 400 (str "Username wajib diisi.")
  if !env.allowed then
    return page 429 (str "Terlalu banyak permintaan. Coba lagi nanti.")
  if !env.turnstile then
    return page 400 (str "Verifikasi keamanan gagal. Coba lagi.")
  issueOtp env username fun u => u.status = active && u.email != []
  return successResponse req next
    (str "\x7b\"success\":true,\"next\":\"" ++ next ++ str "\"\x7d")

end ExamVan.Auth
