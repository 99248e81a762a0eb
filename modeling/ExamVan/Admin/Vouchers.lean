import ExamVan.Admin.UpdateExam
import ExamVan.Api.Body
import ExamVan.Db.Pool
import ExamVan.Http.Identity
import ExamVan.Lib.Upsert

/-!
# Vouchers

`redeem_voucher` turns a code into a redemption and gives its package to the user, and
`activate_voucher` gives the package of an older redemption again. Both run in one transaction each.
A point in time is a number of microseconds, as PostgreSQL counts them.
-/

namespace ExamVan.Admin

open ByteString Queue Db Http

/-! ### The tables -/

structure Voucher where
  code : Bytes
  package : Bytes := str "free"
  durationType : Bytes := str "bulanan"
  maxUsage : Int := 1
  usedCount : Int := 0
  /-- as text, empty for null -/
  expiresAt : Bytes := []
  isActive : Bool := true
  isCustom : Bool := false
  customLabel : Bytes := []
  customMaxExams : Int := 0
  customMaxPdfSize : Int := 0
  customMaxConcurrentExams : Int := 0
  customMaxStorageSize : Int := 0
  customMaxUsers : Int := 0
  customRole : Bytes := []
  deriving DecidableEq

/-- What a package allows. -/
structure Entitlement where
  package : Bytes
  maxExams : Int := 0
  maxPdfSize : Int := 0
  maxConcurrentExams : Int := 0
  maxStorageSize : Int := 0
  role : Bytes := []
  deriving DecidableEq

structure Redemption where
  voucherId : Nat
  userId : Int32
  isActive : Bool := true
  entitlement : Entitlement
  maxUsers : Int := 0
  remainingSeconds : Int := 0
  activatedAt : Option Int := none
  deriving DecidableEq

/-- A row of `admin_users`; `entitlement.role` is its `package_role`. -/
structure AdminUser where
  role : Bytes := str "[\"guru\"]"
  operatorCreated : Bool := false
  entitlement : Entitlement
  expiresAt : Option Int := none
  deriving DecidableEq

structure VoucherDb where
  users : Sql.Table Int32 AdminUser
  vouchers : OrderedMap Nat Voucher
  redemptions : Sql.Table Int32 Redemption
  /-- `package_settings`, with `max_users` next to the rest -/
  packages : Bytes → Option (Entitlement × Int)

/-! ### What a voucher is good for -/

/-- The functions that are not read here: SQL's `UPPER(TRIM(·))`, `parse_pg_or_iso_utc` and the
number that PostgreSQL reads from a text. -/
structure VoucherSetup where
  upperTrim : Bytes → Bytes
  parseTime : Bytes → Option Int
  int4in : Bytes → Option Int32

/-- `voucher_usable`. -/
def voucherUsable (parseTime : Bytes → Option Int) (now : Int) (v : Voucher) : Bool :=
  if !v.isActive then false
  else if v.expiresAt = [] then true
  else
    match parseTime v.expiresAt with
    | none => false
    | some t => !(t < now)

def durationDays (durationType : Bytes) : Int :=
  if durationType = str "bulanan" then 30
  else if durationType = str "semester" then 180
  else if durationType = str "tahunan" then 365
  else
    match stoi durationType with
    | none => 30
    | some days => if 0 < days then days.toInt else 30

/-- What a redemption of the voucher gives, and its `max_users`. -/
def VoucherDb.entitlementOf (db : VoucherDb) (v : Voucher) : Option (Entitlement × Int) :=
  if v.isCustom then
    some (
      { package := v.customLabel
        maxExams := v.customMaxExams
        maxPdfSize := v.customMaxPdfSize
        maxConcurrentExams := v.customMaxConcurrentExams
        maxStorageSize := v.customMaxStorageSize
        role := v.customRole }, v.customMaxUsers)
  else (db.packages v.package).map fun row => ({ row.1 with package := v.package }, row.2)

/-- In a second. -/
def microseconds : Int := 1000000

/-! ### The statements -/

namespace VoucherDb

/-- `… FROM vouchers WHERE UPPER(TRIM(code))=UPPER(TRIM($1))`. -/
def matching (upperTrim : Bytes → Bytes) (db : VoucherDb) (code : Bytes) : List (Nat × Voucher) :=
  db.vouchers.entries.filter fun row => upperTrim row.2.code = upperTrim code

/-- `UPDATE vouchers SET used_count=used_count+1 WHERE id=$1`. -/
def countUse (id : Nat) (db : VoucherDb) : VoucherDb :=
  match db.vouchers.find? id with
  | none => db
  | some v => { db with vouchers := db.vouchers.insert id { v with usedCount := v.usedCount + 1 } }

/-- `INSERT INTO voucher_redemptions`. -/
def insertRedemption (id : Int32) (row : Redemption) (db : VoucherDb) : VoucherDb :=
  { db with redemptions := db.redemptions.write id row }

/-- `UPDATE admin_users SET package=$2,…,expires_at=now()+… WHERE id=$1`. -/
def entitle (uid : Int32) (e : Entitlement) (expiresAt : Int) (db : VoucherDb) : VoucherDb :=
  { db with
    users := fun id =>
      if id = uid then (db.users id).map fun user =>
        { user with entitlement := e, expiresAt := some expiresAt }
      else db.users id }

/-- `UPDATE voucher_redemptions SET is_active=false WHERE user_id=$1 AND id<>$2`. -/
def deactivateOthers (uid rid : Int32) (db : VoucherDb) : VoucherDb :=
  { db with
    redemptions := fun id => (db.redemptions id).map fun row =>
      if row.userId = uid ∧ id ≠ rid then { row with isActive := false } else row }

/-- `UPDATE voucher_redemptions SET is_active=true,activated_at=now(),… WHERE id=$1`. -/
def reactivate (rid : Int32) (now remaining : Int) (db : VoucherDb) : VoucherDb :=
  { db with
    redemptions := fun id => (db.redemptions id).map fun row =>
      if id = rid then
        { row with isActive := true, activatedAt := some now, remainingSeconds := remaining }
      else row }

end VoucherDb

/-! ### `redeem_voucher` -/

/-- A `COMMIT` is refused, or takes effect and may go unanswered. -/
inductive CommitOutcome
  | refused
  | unanswered
  | acknowledged
  deriving DecidableEq

/-- What one call meets; a statement that is not answered fails. -/
structure RedeemEnv where
  pool : PoolOutcome := {}
  acquired : Bool := true
  userRead : Bool := true
  locked : Bool := true
  /-- which of the rows that match comes first -/
  row : Nat := 0
  /-- the clock of the process -/
  clock : Int
  packageRead : Bool := true
  counted : Bool := true
  inserted : Bool := true
  /-- `nextval` of the redemptions -/
  newId : Int32
  entitled : Bool := true
  /-- `now()`, the time of the transaction's beginning -/
  now : Int
  commit : CommitOutcome := .acknowledged

inductive VoucherResult
  | none
  | superadmin
  | operatorCreated
  | notfound
  | invalid
  | fail
  | ok
  deriving DecidableEq

/-- The row that the SELECT returns first. -/
def firstRow (row : Nat) (rows : List (Nat × Voucher)) : Option (Nat × Voucher) :=
  rows[row]?.or rows.head?

/-- A redemption that is about to be committed. -/
structure Redeeming where
  voucherId : Nat
  voucher : Voucher
  entitlement : Entitlement
  maxUsers : Int

/-- `remaining_seconds` of a new redemption. -/
def Redeeming.seconds (x : Redeeming) : Int := durationDays x.voucher.durationType * 86400

def newRedemption (env : RedeemEnv) (uid : Int32) (x : Redeeming) : Redemption where
  voucherId := x.voucherId
  userId := uid
  entitlement := x.entitlement
  maxUsers := x.maxUsers
  remainingSeconds := x.seconds
  activatedAt := some env.now

/-- What the three statements write. -/
def VoucherDb.redeemed (env : RedeemEnv) (uid : Int32) (x : Redeeming) (db : VoucherDb) : VoucherDb :=
  ((db.countUse x.voucherId).insertRedemption env.newId (newRedemption env uid x)).entitle uid
    x.entitlement (env.now + x.seconds * microseconds)

/-- What is left of a transaction after its `COMMIT`. -/
def commitTo {δ : Type*} (outcome : CommitOutcome) (before after : δ) : VoucherResult × δ :=
  match outcome with
  | .refused => (.fail, before)
  | .unanswered => (.fail, after)
  | .acknowledged => (.ok, after)

/-- `redeem_voucher` from `BEGIN` up to its `COMMIT`. -/
def redeemStatements (S : VoucherSetup) (env : RedeemEnv) (code : Bytes) (db : VoucherDb) :
    Except VoucherResult Redeeming :=
  if !env.locked then .error .invalid
  else
    match firstRow env.row (db.matching S.upperTrim code) with
    | none => .error .invalid
    | some (id, v) =>
        if !voucherUsable S.parseTime env.clock v || v.maxUsage ≤ v.usedCount then .error .invalid
        else if !v.isCustom && !env.packageRead then .error .invalid
        else
          match db.entitlementOf v with
          | none => .error .invalid
          | some (e, maxUsers) =>
              if !env.counted then .error .fail
              -- an id that is in use violates the primary key
              else if !env.inserted || (db.redemptions env.newId).isSome then .error .fail
              else if !env.entitled then .error .fail
              else .ok ⟨id, v, e, maxUsers⟩

/-- `redeem_voucher` up to its `COMMIT`. -/
def redeemChecks (S : VoucherSetup) (env : RedeemEnv) (code : Bytes) (uid : Int32) (db : VoucherDb) :
    Except VoucherResult Redeeming :=
  if !env.userRead then .error .notfound
  else
    match db.users uid with
    | none => .error .notfound
    | some user =>
        if containsSuperadmin user.role then .error .superadmin
        else if user.operatorCreated then .error .operatorCreated
        else redeemStatements S env code db

/-- The function that `redeem_voucher` passes to `with_pg`. -/
def redeemWith (S : VoucherSetup) (env : RedeemEnv) (code : Bytes) (uid : Int32) (db : VoucherDb) :
    VoucherResult × VoucherDb :=
  if !env.acquired then (.none, db)
  else
    match redeemChecks S env code uid db with
    | .error r => (r, db)
    | .ok x => commitTo env.commit db (db.redeemed env uid x)

def redeemResponse : VoucherResult → Response
  | .superadmin => failure 403 (str "Akun SuperAdmin tidak dapat menukar kode voucher")
  | .operatorCreated => failure 403 (str "Gagal memproses klaim voucher")
  | .notfound => failure 404 (str "Akun tidak ditemukan")
  | .invalid => failure 400 (str "Kode voucher tidak valid atau sudah tidak tersedia")
  | .fail => failure 500 (str "Gagal memproses klaim voucher")
  | .ok => ⟨200, str "\x7b\"success\":true,\"ok\":true,\"message\":\"Voucher berhasil diklaim\"\x7d"⟩
  | .none => failure 503 (str "Database tidak tersedia")

/-- A field of the form, or else of the JSON body. -/
def bodyField (req : Http.Request) (key : Bytes) : Bytes :=
  let value := getParam (Api.parseForm req.body) key
  if value = [] then Api.jsonStringField req.body key else value

/-- `redeem_voucher`. -/
def redeemVoucher (S : VoucherSetup) (env : RedeemEnv) (req : Http.Request) (db : VoucherDb) :
    Response × VoucherDb :=
  let code := (bodyField req (str "code")).map toupper
  let uid := sessionAdminIdFrom req
  if code = [] then (failure 400 (str "Silakan masukkan kode voucher"), db)
  else if uid ≤ 0 then (failure 401 (str "Sesi tidak valid. Silakan login kembali."), db)
  else
    let done := (withGlobalPg env.pool (fun p => redeemWith S env code uid p.2) (.none, db)).2
    (redeemResponse done.1, done.2)

/-! ### `activate_voucher` -/

structure ActivateEnv where
  pool : PoolOutcome := {}
  acquired : Bool := true
  began : Bool := true
  rowRead : Bool := true
  deactivated : Bool := true
  reactivated : Bool := true
  entitled : Bool := true
  /-- `now()`, the time of the transaction's beginning -/
  now : Int
  commit : CommitOutcome := .acknowledged

/-- What the three statements write. -/
def VoucherDb.activated (now : Int) (uid rid : Int32) (row : Redemption) (db : VoucherDb) :
    VoucherDb :=
  ((db.deactivateOthers uid rid).reactivate rid now row.remainingSeconds).entitle uid
    row.entitlement (now + row.remainingSeconds * microseconds)

/-- `activate_voucher` up to its `COMMIT`: the redemption's id and its row. -/
def activateChecks (S : VoucherSetup) (env : ActivateEnv) (ridText : Bytes) (uid : Int32)
    (db : VoucherDb) : Except VoucherResult (Int32 × Redemption) :=
  if !env.began then .error .fail
  else if !env.rowRead then .error .notfound
  else
    match S.int4in ridText with
    | none => .error .notfound
    | some rid =>
        match (db.redemptions rid).filter fun row => row.userId = uid with
        | none => .error .notfound
        | some row =>
            if row.remainingSeconds ≤ 0 || !row.isActive then .error .invalid
            else if !env.deactivated || !env.reactivated || !env.entitled then .error .fail
            else .ok (rid, row)

/-- The function that `activate_voucher` passes to `with_pg`. -/
def activateWith (S : VoucherSetup) (env : ActivateEnv) (ridText : Bytes) (uid : Int32)
    (db : VoucherDb) : VoucherResult × VoucherDb :=
  if !env.acquired then (.none, db)
  else
    match activateChecks S env ridText uid db with
    | .error r => (r, db)
    | .ok (rid, row) => commitTo env.commit db (db.activated env.now uid rid row)

def activateResponse : VoucherResult → Response
  | .notfound => failure 404 (str "Paket tidak ditemukan")
  | .invalid => failure 400 (str "Paket tidak valid atau sudah kedaluwarsa")
  | .fail => failure 500 (str "Gagal memproses aktivasi paket")
  | .ok => ⟨200, str "\x7b\"success\":true,\"ok\":true,\"message\":\"Paket berhasil diaktifkan\"\x7d"⟩
  | _ => failure 503 (str "Database tidak tersedia")

/-- `activate_voucher`. -/
def activateVoucher (S : VoucherSetup) (env : ActivateEnv) (req : Http.Request) (db : VoucherDb) :
    Response × VoucherDb :=
  let rid := bodyField req (str "redemption_id")
  let uid := sessionAdminIdFrom req
  if rid = [] then (failure 400 (str "ID paket tidak valid"), db)
  else if uid ≤ 0 then (failure 401 (str "Sesi tidak valid. Silakan login kembali."), db)
  else
    let done := (withGlobalPg env.pool (fun p => activateWith S env rid uid p.2) (.none, db)).2
    (activateResponse done.1, done.2)

/-! ### What a call commits -/

def CommitOutcome.lands (o : CommitOutcome) : Bool := o ≠ .refused

theorem commitTo_snd {δ : Type*} (o : CommitOutcome) (before after : δ) :
    (commitTo o before after).2 = if o.lands then after else before := by
  cases o <;> rfl

/-- The redemption that a call of `redeem_voucher` commits. -/
def redeemCommits (S : VoucherSetup) (env : RedeemEnv) (code : Bytes) (uid : Int32)
    (db : VoucherDb) : Option Redeeming :=
  if env.acquired && env.commit.lands then (redeemChecks S env code uid db).toOption else none

/-- The redemption, with its id, that a call of `activate_voucher` gives again. -/
def activateCommits (S : VoucherSetup) (env : ActivateEnv) (ridText : Bytes) (uid : Int32)
    (db : VoucherDb) : Option (Int32 × Redemption) :=
  if env.acquired && env.commit.lands then (activateChecks S env ridText uid db).toOption else none

section

variable {S : VoucherSetup} {db : VoucherDb} {code ridText : Bytes} {uid : Int32}

theorem redeemWith_snd (env : RedeemEnv) :
    (redeemWith S env code uid db).2 =
      (redeemCommits S env code uid db).elim db (db.redeemed env uid) := by
  unfold redeemWith redeemCommits
  cases env.acquired with
  | false => rfl
  | true =>
      cases hchecks : redeemChecks S env code uid db with
      | error r => cases env.commit.lands <;> rfl
      | ok x =>
          simp only [Bool.not_true, Bool.false_eq_true, if_false, commitTo_snd, Bool.true_and]
          cases env.commit.lands <;> rfl

theorem activateWith_snd (env : ActivateEnv) :
    (activateWith S env ridText uid db).2 =
      (activateCommits S env ridText uid db).elim db
        fun x => db.activated env.now uid x.1 x.2 := by
  unfold activateWith activateCommits
  cases env.acquired with
  | false => rfl
  | true =>
      cases hchecks : activateChecks S env ridText uid db with
      | error r => cases env.commit.lands <;> rfl
      | ok x =>
          simp only [Bool.not_true, Bool.false_eq_true, if_false, commitTo_snd, Bool.true_and]
          cases env.commit.lands <;> rfl

/-- What is known of a voucher that is being redeemed. -/
structure Redeemable (S : VoucherSetup) (env : RedeemEnv) (db : VoucherDb) (x : Redeeming) : Prop where
  found : db.vouchers.find? x.voucherId = some x.voucher
  usable : voucherUsable S.parseTime env.clock x.voucher = true
  free : x.voucher.usedCount < x.voucher.maxUsage
  entitlement : db.entitlementOf x.voucher = some (x.entitlement, x.maxUsers)
  newId : db.redemptions env.newId = none

theorem mem_of_firstRow {n : Nat} {rows : List (Nat × Voucher)} {r : Nat × Voucher}
    (h : firstRow n rows = some r) : r ∈ rows := by
  rcases Option.or_eq_some_iff.mp h with h | ⟨-, h⟩
  · exact List.mem_of_getElem? h
  · exact List.mem_of_head? h

theorem redeemStatements_ok {env : RedeemEnv} {x : Redeeming}
    (h : redeemStatements S env code db = .ok x) : Redeemable S env db x := by
  unfold redeemStatements at h
  split at h
  · cases h
  split at h
  · cases h
  next id v hrow =>
    split at h
    · cases h
    next hgood =>
    split at h
    · cases h
    split at h
    · cases h
    next e maxUsers hgiven =>
    repeat' split at h
    all_goals cases h
    next hnew _ =>
      simp only [Bool.or_eq_true, Bool.not_eq_true', decide_eq_true_eq, not_or, Bool.not_eq_false,
        not_le] at hgood hnew
      have hmem : (id, v) ∈ db.vouchers.entries := (List.mem_filter.mp (mem_of_firstRow hrow)).1
      exact ⟨OrderedMap.find?_eq_some_iff.mpr hmem, hgood.1, hgood.2, hgiven, by simpa using hnew.2⟩

theorem redeemChecks_ok {env : RedeemEnv} {x : Redeeming}
    (h : redeemChecks S env code uid db = .ok x) :
    (db.users uid).isSome = true ∧ Redeemable S env db x := by
  unfold redeemChecks at h
  split at h
  · cases h
  split at h
  · cases h
  next user huser =>
    split at h
    · cases h
    split at h
    · cases h
    exact ⟨by rw [huser]; rfl, redeemStatements_ok h⟩

theorem redeemCommits_some {env : RedeemEnv} {x : Redeeming}
    (h : redeemCommits S env code uid db = some x) :
    (db.users uid).isSome = true ∧ Redeemable S env db x := by
  unfold redeemCommits at h
  split at h
  · cases hchecks : redeemChecks S env code uid db with
    | error r =>
        rw [hchecks] at h
        cases h
    | ok y =>
        rw [hchecks] at h
        cases h
        exact redeemChecks_ok hchecks
  · cases h

/-- What is known of a redemption that is given again. -/
structure Reactivated (S : VoucherSetup) (ridText : Bytes) (uid : Int32) (db : VoucherDb)
    (x : Int32 × Redemption) : Prop where
  text : S.int4in ridText = some x.1
  found : db.redemptions x.1 = some x.2
  own : x.2.userId = uid
  remains : 0 < x.2.remainingSeconds
  active : x.2.isActive = true

theorem activateCommits_some {env : ActivateEnv} {x : Int32 × Redemption}
    (h : activateCommits S env ridText uid db = some x) : Reactivated S ridText uid db x := by
  unfold activateCommits at h
  split at h
  swap
  · cases h
  cases hchecks : activateChecks S env ridText uid db with
  | error r =>
      rw [hchecks] at h
      cases h
  | ok y =>
      rw [hchecks] at h
      cases h
      unfold activateChecks at hchecks
      split at hchecks
      · cases hchecks
      split at hchecks
      · cases hchecks
      split at hchecks
      · cases hchecks
      next rid htext =>
      split at hchecks
      · cases hchecks
      next row hrow =>
      split at hchecks
      · cases hchecks
      next hgood =>
      split at hchecks
      · cases hchecks
      cases hchecks
      obtain ⟨hfound, hown⟩ := Option.filter_eq_some_iff.mp hrow
      simp only [Bool.or_eq_true, decide_eq_true_eq, Bool.not_eq_true', not_or, not_le,
        Bool.not_eq_false] at hgood
      exact ⟨htext, hfound, by simpa using hown, hgood.1, hgood.2⟩

end

end ExamVan.Admin
