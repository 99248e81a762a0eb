import ExamVan.Admin.Vouchers
import ExamVan.Lib.Transition

/-!
# The one active redemption

`activate_voucher` deactivates the user's other redemptions before it activates one, but
`redeem_voucher` inserts an active row next to whatever is there.
-/

namespace ExamVan.Admin

open ByteString

/-! ### What the statements leave alone -/

section

variable {db : VoucherDb} {uid id rid : Int32}

@[simp]
theorem users_countUse (vid : Nat) : (db.countUse vid).users = db.users := by
  unfold VoucherDb.countUse
  split <;> rfl

@[simp]
theorem redemptions_countUse (vid : Nat) : (db.countUse vid).redemptions = db.redemptions := by
  unfold VoucherDb.countUse
  split <;> rfl

theorem users_entitle_self {e : Entitlement} {t : Int} :
    (db.entitle uid e t).users uid =
      (db.users uid).map fun user => { user with entitlement := e, expiresAt := some t } :=
  if_pos rfl

theorem users_entitle_of_ne {e : Entitlement} {t : Int} (h : id ≠ uid) :
    (db.entitle uid e t).users id = db.users id := if_neg h

theorem users_redeemed_of_ne {env : RedeemEnv} {x : Redeeming} (h : id ≠ uid) :
    (db.redeemed env uid x).users id = db.users id := by
  rw [VoucherDb.redeemed, users_entitle_of_ne h]
  exact congrFun (users_countUse _) id

theorem users_redeemed_self {env : RedeemEnv} {x : Redeeming} :
    (db.redeemed env uid x).users uid = (db.users uid).map fun user =>
      { user with
        entitlement := x.entitlement
        expiresAt := some (env.now + x.seconds * microseconds) } := by
  rw [VoucherDb.redeemed, users_entitle_self]
  exact congrArg _ (congrFun (users_countUse _) uid)

theorem redemptions_redeemed {env : RedeemEnv} {x : Redeeming} :
    (db.redeemed env uid x).redemptions = db.redemptions.write env.newId (newRedemption env uid x) :=
  congrArg (fun t => Sql.Table.write t env.newId (newRedemption env uid x)) (redemptions_countUse _)

theorem users_activated_of_ne {now : Int} {row : Redemption} (h : id ≠ uid) :
    (db.activated now uid rid row).users id = db.users id := users_entitle_of_ne h

theorem users_activated_self {now : Int} {row : Redemption} :
    (db.activated now uid rid row).users uid = (db.users uid).map fun user =>
      { user with
        entitlement := row.entitlement
        expiresAt := some (now + row.remainingSeconds * microseconds) } := users_entitle_self

/-- What becomes of a row when a redemption of its user is given again. -/
theorem redemptions_activated {now : Int} {row : Redemption} :
    (db.activated now uid rid row).redemptions id = (db.redemptions id).map fun r =>
      if id = rid then
        { r with isActive := true, activatedAt := some now, remainingSeconds := row.remainingSeconds }
      else if r.userId = uid then { r with isActive := false } else r := by
  have hmap : (db.activated now uid rid row).redemptions id =
      ((db.redemptions id).map fun r =>
        if r.userId = uid ∧ id ≠ rid then { r with isActive := false } else r).map fun r =>
          if id = rid then
            { r with
              isActive := true
              activatedAt := some now
              remainingSeconds := row.remainingSeconds }
          else r := rfl
  rw [hmap, Option.map_map]
  congr 1
  funext r
  by_cases hid : id = rid <;> by_cases hown : r.userId = uid <;> simp [hid, hown]

end

/-! ### Runs of transactions -/

/-- A transaction with what it meets; the caller is the user of the session. -/
inductive VoucherTx
  | redeem (env : RedeemEnv) (code : Bytes) (caller : Int32)
  | activate (env : ActivateEnv) (ridText : Bytes) (caller : Int32)

/-- The database after a transaction. -/
def VoucherTx.apply (S : VoucherSetup) (db : VoucherDb) : VoucherTx → VoucherDb
  | .redeem env code caller => (redeemWith S env code caller db).2
  | .activate env ridText caller => (activateWith S env ridText caller db).2

/-- One transaction after the other. -/
def voucherTxs (S : VoucherSetup) (db : VoucherDb) : System VoucherDb VoucherTx where
  initial := db
  step? db tx := some (tx.apply S db)

/-- A call of `redeem_voucher` is nothing but its transaction. -/
theorem redeemVoucher_snd (S : VoucherSetup) (env : RedeemEnv) (req : Http.Request) (db : VoucherDb) :
    (redeemVoucher S env req db).2 = db ∨
      ∃ code caller, (redeemVoucher S env req db).2 =
        (VoucherTx.redeem env code caller).apply S db := by
  unfold redeemVoucher
  dsimp only
  split
  · exact Or.inl rfl
  split
  · exact Or.inl rfl
  rw [Db.withGlobalPg_eq]
  cases env.pool.reached with
  | false => exact Or.inl rfl
  | true => exact Or.inr ⟨_, _, rfl⟩

theorem activateVoucher_snd (S : VoucherSetup) (env : ActivateEnv) (req : Http.Request)
    (db : VoucherDb) :
    (activateVoucher S env req db).2 = db ∨
      ∃ ridText caller, (activateVoucher S env req db).2 =
        (VoucherTx.activate env ridText caller).apply S db := by
  unfold activateVoucher
  dsimp only
  split
  · exact Or.inl rfl
  split
  · exact Or.inl rfl
  rw [Db.withGlobalPg_eq]
  cases env.pool.reached with
  | false => exact Or.inl rfl
  | true => exact Or.inr ⟨_, _, rfl⟩

/-! ### At most one active redemption -/

/-- The user's redemption is active. -/
structure ActiveIn (db : VoucherDb) (uid id : Int32) (row : Redemption) : Prop where
  found : db.redemptions id = some row
  own : row.userId = uid
  active : row.isActive = true

/-- The expiry that the row stands for. -/
def Redemption.expiry (row : Redemption) : Option Int :=
  row.activatedAt.map (· + row.remainingSeconds * microseconds)

/-- At most one redemption of the user is active, and it is the one that the user has. -/
structure Settled (uid : Int32) (db : VoucherDb) : Prop where
  unique : ∀ {i j r r'}, ActiveIn db uid i r → ActiveIn db uid j r' → i = j
  applied : ∀ {i r}, ActiveIn db uid i r → ∃ user, db.users uid = some user ∧
    user.entitlement = r.entitlement ∧ user.expiresAt = r.expiry

def NoneActive (uid : Int32) (db : VoucherDb) : Prop := ∀ id row, ¬ ActiveIn db uid id row

/-- A redemption is committed only for a user who has no active one. -/
def RedeemsUnused (S : VoucherSetup) (uid : Int32) (db : VoucherDb) : VoucherTx → Prop
  | .redeem env code caller =>
      (redeemCommits S env code caller db).isSome = true → caller = uid → NoneActive uid db
  | .activate _ _ _ => True

section

variable {S : VoucherSetup} {db db' : VoucherDb} {uid : Int32}

theorem settled_of_noneActive (h : NoneActive uid db) : Settled uid db where
  unique hi _ := absurd hi (h _ _)
  applied hi := absurd hi (h _ _)

/-- Rows and users that stay as they are stay settled. -/
theorem Settled.of_same (h : Settled uid db) (huser : db'.users uid = db.users uid)
    (hrows : ∀ {id row}, ActiveIn db' uid id row → ActiveIn db uid id row) : Settled uid db' where
  unique hi hj := h.unique (hrows hi) (hrows hj)
  applied hi := huser ▸ h.applied (hrows hi)

theorem activeIn_redeemed_iff {env : RedeemEnv} {x : Redeeming} {caller id : Int32}
    {row : Redemption} (hnew : db.redemptions env.newId = none) :
    ActiveIn (db.redeemed env caller x) uid id row ↔
      ActiveIn db uid id row ∨
        (caller = uid ∧ id = env.newId ∧ row = newRedemption env caller x) := by
  constructor
  · rintro ⟨hfound, hown, hactive⟩
    rw [redemptions_redeemed] at hfound
    by_cases hid : id = env.newId
    · subst hid
      rw [Sql.Table.write_self] at hfound
      cases hfound
      exact Or.inr ⟨hown, rfl, rfl⟩
    · rw [Sql.Table.write_of_ne _ _ hid] at hfound
      exact Or.inl ⟨hfound, hown, hactive⟩
  · rintro (⟨hfound, hown, hactive⟩ | ⟨rfl, rfl, rfl⟩)
    · have hid : id ≠ env.newId := by
        rintro rfl
        rw [hnew] at hfound
        cases hfound
      refine ⟨?_, hown, hactive⟩
      rw [redemptions_redeemed, Sql.Table.write_of_ne _ _ hid, hfound]
    · refine ⟨?_, rfl, rfl⟩
      rw [redemptions_redeemed, Sql.Table.write_self]

/-- A committed redemption keeps a user settled exactly if no other one was active. -/
theorem settled_redeemed_iff {env : RedeemEnv} {x : Redeeming} {caller : Int32}
    (h : Settled uid db) (huser : (db.users caller).isSome = true)
    (hnew : db.redemptions env.newId = none) :
    Settled uid (db.redeemed env caller x) ↔ (caller = uid → NoneActive uid db) := by
  by_cases hcaller : caller = uid
  · subst hcaller
    rw [imp_iff_right rfl]
    have hthis : ActiveIn (db.redeemed env caller x) caller env.newId (newRedemption env caller x) :=
      (activeIn_redeemed_iff hnew).mpr (Or.inr ⟨rfl, rfl, rfl⟩)
    constructor
    · intro hsettled id row hactive
      have hid := hsettled.unique ((activeIn_redeemed_iff hnew).mpr (Or.inl hactive)) hthis
      have hfound := hactive.found
      rw [hid, hnew] at hfound
      cases hfound
    · intro hnone
      have honly : ∀ {i r}, ActiveIn (db.redeemed env caller x) caller i r →
          i = env.newId ∧ r = newRedemption env caller x := by
        intro i r hi
        rcases (activeIn_redeemed_iff hnew).mp hi with hi | hi
        · exact absurd hi (hnone i r)
        · exact hi.2
      obtain ⟨user, huser⟩ := Option.isSome_iff_exists.mp huser
      refine ⟨fun hi hj => (honly hi).1.trans (honly hj).1.symm, fun hi => ?_⟩
      obtain ⟨-, rfl⟩ := honly hi
      rw [users_redeemed_self, huser]
      exact ⟨_, rfl, rfl, rfl⟩
  · refine iff_of_true ?_ fun heq => absurd heq hcaller
    refine h.of_same (users_redeemed_of_ne (Ne.symm hcaller)) fun hi => ?_
    exact ((activeIn_redeemed_iff hnew).mp hi).resolve_right fun hi => hcaller hi.1

/-- Giving a redemption again settles its user, and leaves the others as they are. -/
theorem settled_activated {now : Int} {caller rid : Int32} {row : Redemption} (h : Settled uid db)
    (hactive : ActiveIn db caller rid row) : Settled uid (db.activated now caller rid row) := by
  by_cases hcaller : caller = uid
  · subst hcaller
    have honly : ∀ {i r}, ActiveIn (db.activated now caller rid row) caller i r → i = rid ∧
        r = { row with activatedAt := some now } := by
      rintro i r ⟨hfound, hown, hon⟩
      rw [redemptions_activated] at hfound
      obtain ⟨r₀, hr₀, hr⟩ := Option.map_eq_some_iff.mp hfound
      by_cases hid : i = rid
      · subst hid
        rw [hactive.found] at hr₀
        cases hr₀
        rw [if_pos rfl] at hr
        refine ⟨rfl, hr.symm.trans ?_⟩
        rw [← hactive.active]
      · rw [if_neg hid] at hr
        split at hr
        · rw [← hr] at hon
          cases hon
        next hother =>
          rw [← hr] at hown
          exact absurd hown hother
    obtain ⟨user, huser, -, -⟩ := h.applied hactive
    refine ⟨fun hi hj => (honly hi).1.trans (honly hj).1.symm, fun hi => ?_⟩
    obtain ⟨-, rfl⟩ := honly hi
    rw [users_activated_self, huser]
    exact ⟨_, rfl, rfl, rfl⟩
  · refine h.of_same (users_activated_of_ne (Ne.symm hcaller)) ?_
    rintro i r ⟨hfound, hown, hon⟩
    rw [redemptions_activated] at hfound
    obtain ⟨r₀, hr₀, hr⟩ := Option.map_eq_some_iff.mp hfound
    by_cases hid : i = rid
    · subst hid
      rw [hactive.found] at hr₀
      cases hr₀
      rw [if_pos rfl] at hr
      have howner : r.userId = row.userId := by rw [← hr]
      exact absurd (hactive.own.symm.trans (howner.symm.trans hown)) hcaller
    · rw [if_neg hid] at hr
      split at hr
      next hother =>
        rw [← hr] at hown
        exact absurd (hother.symm.trans hown) hcaller
      · exact ⟨hr ▸ hr₀, hown, hon⟩

theorem apply_redeem (env : RedeemEnv) (code : Bytes) (caller : Int32) :
    (VoucherTx.redeem env code caller).apply S db =
      (redeemCommits S env code caller db).elim db (db.redeemed env caller) := redeemWith_snd env

theorem apply_activate (env : ActivateEnv) (ridText : Bytes) (caller : Int32) :
    (VoucherTx.activate env ridText caller).apply S db =
      (activateCommits S env ridText caller db).elim db
        fun x => db.activated env.now caller x.1 x.2 := activateWith_snd env

/-- What one transaction does to a settled user. -/
theorem settled_apply_iff (h : Settled uid db) (tx : VoucherTx) :
    RedeemsUnused S uid db tx ↔ Settled uid (tx.apply S db) := by
  cases tx with
  | redeem env code caller =>
      rw [apply_redeem, RedeemsUnused]
      cases hcommits : redeemCommits S env code caller db with
      | none => exact iff_of_true (fun hsome => by cases hsome) h
      | some x =>
          obtain ⟨huser, hredeemable⟩ := redeemCommits_some hcommits
          rw [Option.isSome_some, imp_iff_right rfl]
          exact (settled_redeemed_iff h huser hredeemable.newId).symm
  | activate env ridText caller =>
      rw [apply_activate, RedeemsUnused]
      cases hcommits : activateCommits S env ridText caller db with
      | none => exact iff_of_true trivial h
      | some x =>
          have hx := activateCommits_some hcommits
          exact iff_of_true trivial (settled_activated h ⟨hx.found, hx.own, hx.active⟩)

/-- From none on, a user stays with at most one active redemption exactly as long as no voucher is
redeemed next to an active one. -/
theorem settled_along_iff (hnone : NoneActive uid db) (txs : List VoucherTx) :
    (voucherTxs S db).Along (Settled uid) db txs ↔
      (voucherTxs S db).Guarded (RedeemsUnused S uid) db txs := by
  refine System.along_iff_guarded (fun db tx hsettled => ?_) (settled_of_noneActive hnone)
  rw [settled_apply_iff hsettled tx]
  exact ⟨fun h db' hdb' => by cases hdb'; exact h, fun h => h _ rfl⟩

/-- A user, and two vouchers for thirty days each. -/
def voucherDb : VoucherDb where
  users := fun id => if id = 3 then some { entitlement := { package := str "free" } } else none
  vouchers := OrderedMap.empty.insertAll
    [(1, { code := str "SATU", package := str "pro" }), (2, { code := str "DUA", package := str "pro" })]
  redemptions := fun _ => none
  packages := fun key =>
    if key = str "pro" then some ({ package := str "pro", maxExams := 50 }, 10) else none

/-- Texts are compared as they are, and no date is read. -/
def plainSetup : VoucherSetup := ⟨id, fun _ => none, stoi⟩

theorem settled_along_iff_redeemed :
    (voucherTxs plainSetup voucherDb).Along (Settled 3) voucherDb
        [.redeem { clock := 0, newId := 1, now := 0 } (str "SATU") 3,
          .activate { now := 5 } (str "1") 3] ↔
      (voucherTxs plainSetup voucherDb).Guarded (RedeemsUnused plainSetup 3) voucherDb
        [.redeem { clock := 0, newId := 1, now := 0 } (str "SATU") 3,
          .activate { now := 5 } (str "1") 3] :=
  settled_along_iff (fun _ _ h => by cases h.found) _

/-- The user redeems both vouchers. -/
theorem not_settled_along :
    ¬ ∀ S db uid txs, NoneActive uid db → (voucherTxs S db).Along (Settled uid) db txs := by
  intro h
  let first : VoucherTx := .redeem { clock := 0, newId := 1, now := 0 } (str "SATU") 3
  let next : VoucherTx := .redeem { clock := 0, newId := 2, now := 0 } (str "DUA") 3
  have halong := h plainSetup voucherDb 3 [first, next] fun _ _ h => by cases h.found
  have hsettled : Settled 3 (next.apply plainSetup (first.apply plainSetup voucherDb)) :=
    (halong.2 _ rfl).2 _ rfl
  have hactive : ∀ id, ((next.apply plainSetup (first.apply plainSetup voucherDb)).redemptions id).any
      (fun row => row.userId = 3 && row.isActive) = true → ∃ row, ActiveIn
        (next.apply plainSetup (first.apply plainSetup voucherDb)) 3 id row := by
    intro id hany
    obtain ⟨row, hfound, hrow⟩ := (Option.any_eq_true _ _).mp hany
    simp only [Bool.and_eq_true, decide_eq_true_eq] at hrow
    exact ⟨row, hfound, hrow.1, hrow.2⟩
  obtain ⟨row, hrow⟩ := hactive 1 (by decide +kernel)
  obtain ⟨row', hrow'⟩ := hactive 2 (by decide +kernel)
  exact absurd (hsettled.unique hrow hrow') (by decide)

end

end ExamVan.Admin
