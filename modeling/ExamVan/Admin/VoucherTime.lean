import ExamVan.Admin.VoucherRuns

/-!
# The time that a voucher gives

`remaining_seconds` is written when a voucher is redeemed and never again with another value, so
every activation starts the whole term anew. The account below keeps, for each redemption, the time
sold with it and the time that it has already been the user's expiry.
-/

namespace ExamVan.Admin

open ByteString

/-! ### The account of one user -/

structure VoucherState where
  db : VoucherDb
  clock : Int
  /-- the redemption that has set the user's `expires_at` last -/
  holder : Option Int32 := none
  /-- how long the expiry set by a redemption has been in the future -/
  used : Int32 → Int := fun _ => 0
  /-- `duration_days(duration_type) * 86400` seconds of the redeemed voucher -/
  sold : Int32 → Int := fun _ => 0

namespace VoucherState

variable (uid : Int32) (s : VoucherState)

/-- How far the user's expiry lies in the future. -/
def ahead : Int :=
  match (s.db.users uid).bind AdminUser.expiresAt with
  | none => 0
  | some t => max 0 (t - s.clock)

/-- Time passes. -/
def wait (d : Nat) : VoucherState :=
  { s with
    clock := s.clock + d
    used := fun r => if s.holder = some r then s.used r + min (d : Int) (s.ahead uid) else s.used r }

/-- A redemption is committed. -/
def redeem (env : RedeemEnv) (caller : Int32) (x : Redeeming) : VoucherState :=
  { s with
    db := s.db.redeemed env caller x
    holder := if caller = uid then some env.newId else s.holder
    sold := Function.update s.sold env.newId
      (durationDays x.voucher.durationType * 86400 * microseconds) }

/-- A redemption is given again. -/
def activate (now : Int) (caller rid : Int32) (row : Redemption) : VoucherState :=
  { s with
    db := s.db.activated now caller rid row
    holder := if caller = uid then some rid else s.holder }

end VoucherState

inductive VoucherAction
  | wait (d : Nat)
  | commit (tx : VoucherTx)

/-- `now()` of a transaction. -/
def VoucherTx.now : VoucherTx → Int
  | .redeem env _ _ => env.now
  | .activate env _ _ => env.now

/-- What a transaction commits goes into the account. -/
def VoucherState.record (S : VoucherSetup) (uid : Int32) (s : VoucherState) : VoucherTx → VoucherState
  | .redeem env code caller =>
      (redeemCommits S env code caller s.db).elim s (s.redeem uid env caller)
  | .activate env ridText caller =>
      (activateCommits S env ridText caller s.db).elim s fun x =>
        s.activate uid env.now caller x.1 x.2

/-- Transactions of all users, one after the other, and the time between them. No transaction begins
after it is committed. -/
def voucherTime (S : VoucherSetup) (uid : Int32) (db : VoucherDb) (start : Int) :
    System VoucherState VoucherAction where
  initial := { db := db, clock := start }
  step? s
    | .wait d => some (s.wait uid d)
    | .commit tx => if tx.now ≤ s.clock then some (s.record S uid tx) else none

/-- The account follows the transactions. -/
theorem db_record (S : VoucherSetup) (uid : Int32) (s : VoucherState) (tx : VoucherTx) :
    (s.record S uid tx).db = tx.apply S s.db := by
  cases tx with
  | redeem env code caller =>
      rw [apply_redeem, VoucherState.record]
      cases redeemCommits S env code caller s.db <;> rfl
  | activate env ridText caller =>
      rw [apply_activate, VoucherState.record]
      cases activateCommits S env ridText caller s.db <;> rfl

/-! ### The bound -/

/-- However long one waits, no redemption has been used for more than was sold with it. -/
def WithinSold (uid : Int32) (s : VoucherState) : Prop :=
  ∀ (d : Nat) (r : Int32), (s.wait uid d).used r ≤ (s.wait uid d).sold r

/-- An activation is committed only for a redemption that has been used for no longer than the
transaction takes: for one that begins and ends at once, for no time at all. -/
def ActivatesUnused (S : VoucherSetup) (uid : Int32) (s : VoucherState) : VoucherAction → Prop
  | .commit (.activate env ridText caller) =>
      env.now ≤ s.clock → caller = uid → ∀ x ∈ activateCommits S env ridText caller s.db,
        s.used x.1 ≤ s.clock - env.now
  | _ => True

/-- What the account knows of the tables. -/
structure Kept (uid : Int32) (s : VoucherState) : Prop where
  sold : ∀ {r row}, s.db.redemptions r = some row →
    s.sold r = row.remainingSeconds * microseconds ∧ (s.db.users row.userId).isSome = true
  unsold : ∀ {r}, s.db.redemptions r = none → s.sold r = 0 ∧ s.used r = 0 ∧ s.holder ≠ some r
  used : ∀ r, 0 ≤ s.used r

section

variable {S : VoucherSetup} {uid : Int32} {s : VoucherState}

theorem ahead_nonneg : 0 ≤ s.ahead uid := by
  unfold VoucherState.ahead
  split
  · exact le_rfl
  · exact le_max_left _ _

theorem ahead_wait (d : Nat) : (s.wait uid d).ahead uid = max 0 (s.ahead uid - d) := by
  unfold VoucherState.ahead VoucherState.wait
  dsimp only
  split <;> omega

/-- The time used and the time to come of a redemption. -/
def VoucherState.granted (uid : Int32) (s : VoucherState) (r : Int32) : Int :=
  s.used r + if s.holder = some r then s.ahead uid else 0

theorem granted_wait (d : Nat) (r : Int32) : (s.wait uid d).granted uid r = s.granted uid r := by
  have hahead := @ahead_nonneg uid s
  unfold VoucherState.granted
  rw [ahead_wait]
  by_cases hholder : s.holder = some r
  · simp only [VoucherState.wait, hholder, if_true]
    omega
  · simp only [VoucherState.wait, hholder, if_false]

theorem withinSold_iff : WithinSold uid s ↔ ∀ r, s.granted uid r ≤ s.sold r := by
  have hahead := @ahead_nonneg uid s
  constructor
  · intro h r
    have hr := h (s.ahead uid).toNat r
    unfold VoucherState.granted
    by_cases hholder : s.holder = some r
    · simp only [VoucherState.wait, hholder, if_true] at hr ⊢
      omega
    · simp only [VoucherState.wait, hholder, if_false] at hr ⊢
      omega
  · intro h d r
    have hr := h r
    unfold VoucherState.granted at hr
    by_cases hholder : s.holder = some r
    · simp only [VoucherState.wait, hholder, if_true] at hr ⊢
      omega
    · simp only [VoucherState.wait, hholder, if_false] at hr ⊢
      omega

theorem durationDays_pos (t : Bytes) : 0 < durationDays t := by
  unfold durationDays
  split_ifs
  · decide
  · decide
  · decide
  · split
    · decide
    next days _ =>
      split
      next hpos => exact Int32.lt_iff_toInt_lt.mp hpos
      · decide

theorem ahead_of_same {s' : VoucherState} (huser : s'.db.users uid = s.db.users uid)
    (hclock : s'.clock = s.clock) : s'.ahead uid = s.ahead uid := by
  rw [VoucherState.ahead, huser, hclock, ← VoucherState.ahead]

theorem ahead_of_user {user : AdminUser} {t : Int} (huser : s.db.users uid = some user)
    (ht : user.expiresAt = some t) : s.ahead uid = max 0 (t - s.clock) := by
  rw [VoucherState.ahead, huser, Option.bind_some, ht]

theorem isSome_users_redeemed {db : VoucherDb} {env : RedeemEnv} {caller id : Int32}
    {x : Redeeming} : ((db.redeemed env caller x).users id).isSome = (db.users id).isSome := by
  by_cases hid : id = caller
  · subst hid
    rw [users_redeemed_self, Option.isSome_map]
  · rw [users_redeemed_of_ne hid]

theorem isSome_users_activated {db : VoucherDb} {now : Int} {caller rid id : Int32}
    {row : Redemption} :
    ((db.activated now caller rid row).users id).isSome = (db.users id).isSome := by
  by_cases hid : id = caller
  · subst hid
    rw [users_activated_self, Option.isSome_map]
  · rw [users_activated_of_ne hid]

theorem Kept.wait (h : Kept uid s) (d : Nat) : Kept uid (s.wait uid d) := by
  have hahead := @ahead_nonneg uid s
  refine ⟨h.sold, fun hr => ?_, fun r => ?_⟩
  · obtain ⟨hsold, hused, hholder⟩ := h.unsold hr
    refine ⟨hsold, ?_, hholder⟩
    simp only [VoucherState.wait, if_neg hholder, hused]
  · have hr := h.used r
    simp only [VoucherState.wait]
    split <;> omega

theorem Kept.redeem (h : Kept uid s) {env : RedeemEnv} {caller : Int32} {x : Redeeming}
    (huser : (s.db.users caller).isSome = true) : Kept uid (s.redeem uid env caller x) := by
  refine ⟨fun {r row} hr => ?_, fun {r} hr => ?_, h.used⟩
  · simp only [VoucherState.redeem] at hr ⊢
    rw [isSome_users_redeemed]
    rw [redemptions_redeemed] at hr
    by_cases hid : r = env.newId
    · subst hid
      rw [Sql.Table.write_self] at hr
      cases hr
      exact ⟨Function.update_self _ _ _, huser⟩
    · rw [Sql.Table.write_of_ne _ _ hid] at hr
      rw [Function.update_of_ne hid]
      exact h.sold hr
  · simp only [VoucherState.redeem] at hr ⊢
    rw [redemptions_redeemed] at hr
    by_cases hid : r = env.newId
    · rw [hid, Sql.Table.write_self] at hr
      cases hr
    · rw [Sql.Table.write_of_ne _ _ hid] at hr
      obtain ⟨hsold, hused, hholder⟩ := h.unsold hr
      rw [Function.update_of_ne hid]
      refine ⟨hsold, hused, ?_⟩
      split
      · exact fun heq => hid (Option.some.inj heq).symm
      · exact hholder

theorem Kept.activate (h : Kept uid s) {now : Int} {caller rid : Int32} {row : Redemption}
    (hrow : s.db.redemptions rid = some row) : Kept uid (s.activate uid now caller rid row) := by
  refine ⟨fun {r row'} hr => ?_, fun {r} hr => ?_, h.used⟩
  · simp only [VoucherState.activate] at hr ⊢
    rw [redemptions_activated] at hr
    obtain ⟨row₀, hrow₀, hr⟩ := Option.map_eq_some_iff.mp hr
    have hsame : row'.userId = row₀.userId ∧ row'.remainingSeconds = row₀.remainingSeconds := by
      rw [← hr]
      split
      next hid =>
        subst hid
        rw [hrow] at hrow₀
        cases hrow₀
        exact ⟨rfl, rfl⟩
      · split <;> exact ⟨rfl, rfl⟩
    rw [isSome_users_activated, hsame.1, hsame.2]
    exact h.sold hrow₀
  · simp only [VoucherState.activate] at hr ⊢
    rw [redemptions_activated, Option.map_eq_none_iff] at hr
    obtain ⟨hsold, hused, hholder⟩ := h.unsold hr
    refine ⟨hsold, hused, ?_⟩
    split
    · intro heq
      rw [Option.some.inj heq, hr] at hrow
      cases hrow
    · exact hholder

theorem kept_invariant {db : VoucherDb} {start : Int} (hempty : ∀ r, db.redemptions r = none) :
    (voucherTime S uid db start).Invariant System.anyStep (Kept uid) where
  initial := by
    refine ⟨fun {r row} hr => ?_, fun _ => ⟨rfl, rfl, nofun⟩, fun _ => le_rfl⟩
    have hnone : (voucherTime S uid db start).initial.db.redemptions r = none := hempty r
    rw [hnone] at hr
    cases hr
  step := by
    intro s s' a h _ hstep
    cases a with
    | wait d =>
        cases hstep
        exact h.wait d
    | commit tx =>
        simp only [voucherTime] at hstep
        split at hstep
        swap
        · cases hstep
        cases hstep
        cases tx with
        | redeem env code caller =>
            rw [VoucherState.record]
            cases hcommits : redeemCommits S env code caller s.db with
            | none => exact h
            | some x => exact h.redeem (redeemCommits_some hcommits).1
        | activate env ridText caller =>
            rw [VoucherState.record]
            cases hcommits : activateCommits S env ridText caller s.db with
            | none => exact h
            | some x => exact h.activate (activateCommits_some hcommits).found

/-! ### What one step grants -/

theorem ahead_redeem {env : RedeemEnv} {x : Redeeming} (huser : (s.db.users uid).isSome = true) :
    (s.redeem uid env uid x).ahead uid =
      max 0 (env.now + x.seconds * microseconds - s.clock) := by
  obtain ⟨user, huser⟩ := Option.isSome_iff_exists.mp huser
  have hafter : (s.redeem uid env uid x).db.users uid = _ := users_redeemed_self
  rw [huser] at hafter
  exact ahead_of_user hafter rfl

theorem ahead_activate {now : Int} {rid : Int32} {row : Redemption}
    (huser : (s.db.users uid).isSome = true) :
    (s.activate uid now uid rid row).ahead uid =
      max 0 (now + row.remainingSeconds * microseconds - s.clock) := by
  obtain ⟨user, huser⟩ := Option.isSome_iff_exists.mp huser
  have hafter : (s.activate uid now uid rid row).db.users uid = _ := users_activated_self
  rw [huser] at hafter
  exact ahead_of_user hafter rfl

theorem used_le_granted (r : Int32) : s.used r ≤ s.granted uid r := by
  have hahead := @ahead_nonneg uid s
  unfold VoucherState.granted
  split <;> omega

/-- A redemption grants what is sold with it, less the time that its commit takes. -/
theorem withinSold_redeem (hkept : Kept uid s) (h : WithinSold uid s) {env : RedeemEnv}
    {caller : Int32} {x : Redeeming} (hnow : env.now ≤ s.clock)
    (huser : (s.db.users caller).isSome = true) (hnew : s.db.redemptions env.newId = none) :
    WithinSold uid (s.redeem uid env caller x) := by
  rw [withinSold_iff] at h ⊢
  intro r
  obtain ⟨hsold₀, hused₀, hholder₀⟩ := hkept.unsold hnew
  have hseconds : 0 ≤ x.seconds * microseconds := by
    have hdays := durationDays_pos x.voucher.durationType
    simp only [Redeeming.seconds, microseconds]
    omega
  have hsold : (s.redeem uid env caller x).sold r =
      if r = env.newId then x.seconds * microseconds else s.sold r := by
    by_cases hid : r = env.newId
    · rw [hid, if_pos rfl]
      exact Function.update_self _ _ _
    · rw [if_neg hid]
      exact Function.update_of_ne hid _ _
  have hused : (s.redeem uid env caller x).used = s.used := rfl
  rw [hsold, VoucherState.granted, hused]
  by_cases hcaller : caller = uid
  · subst hcaller
    have hholder : (s.redeem caller env caller x).holder = some env.newId := if_pos rfl
    rw [hholder, ahead_redeem huser]
    by_cases hid : r = env.newId
    · rw [hid, if_pos rfl, if_pos rfl, hused₀]
      omega
    · rw [if_neg fun heq => hid (Option.some.inj heq).symm, if_neg hid, add_zero]
      exact (used_le_granted r).trans (h r)
  · have hholder : (s.redeem uid env caller x).holder = s.holder := if_neg hcaller
    have hahead : (s.redeem uid env caller x).ahead uid = s.ahead uid :=
      ahead_of_same (users_redeemed_of_ne (Ne.symm hcaller)) rfl
    rw [hholder, hahead, ← VoucherState.granted]
    by_cases hid : r = env.newId
    · rw [hid, if_pos rfl, VoucherState.granted, hused₀, if_neg hholder₀]
      omega
    · rw [if_neg hid]
      exact h r

/-- An activation grants the whole term again. -/
theorem withinSold_activate_iff (hkept : Kept uid s) (h : WithinSold uid s) {now : Int}
    {caller rid : Int32} {row : Redemption} (hrow : s.db.redemptions rid = some row)
    (hown : row.userId = caller) :
    WithinSold uid (s.activate uid now caller rid row) ↔
      (caller = uid → s.used rid ≤ s.clock - now) := by
  have hwithin := h
  rw [withinSold_iff] at h ⊢
  obtain ⟨hsold, huser⟩ := hkept.sold hrow
  have hused : (s.activate uid now caller rid row).used = s.used := rfl
  have hsolds : (s.activate uid now caller rid row).sold = s.sold := rfl
  by_cases hcaller : caller = uid
  · subst hcaller
    subst hown
    have hholder : (s.activate row.userId now row.userId rid row).holder = some rid := if_pos rfl
    simp only [VoucherState.granted, hused, hsolds, hholder, ahead_activate huser,
      Option.some.injEq, imp_iff_right]
    constructor
    · intro hall
      have hrid := hall rid
      rw [if_pos rfl, hsold] at hrid
      omega
    · intro hrid r
      by_cases hid : rid = r
      · subst hid
        have := (used_le_granted rid).trans (h rid)
        rw [if_pos rfl, hsold]
        omega
      · rw [if_neg hid, add_zero]
        exact (used_le_granted r).trans (h r)
  · refine iff_of_true (fun r => ?_) fun heq => absurd heq hcaller
    have hholder : (s.activate uid now caller rid row).holder = s.holder := if_neg hcaller
    have hahead : (s.activate uid now caller rid row).ahead uid = s.ahead uid :=
      ahead_of_same (users_activated_of_ne (Ne.symm hcaller)) rfl
    rw [VoucherState.granted, hused, hsolds, hholder, hahead, ← VoucherState.granted]
    exact h r

theorem withinSold_step_iff {db : VoucherDb} {start : Int} (hkept : Kept uid s)
    (h : WithinSold uid s) (a : VoucherAction) :
    ActivatesUnused S uid s a ↔
      ∀ s' ∈ (voucherTime S uid db start).step? s a, WithinSold uid s' := by
  cases a with
  | wait d =>
      refine iff_of_true trivial fun s' hs' => ?_
      cases hs'
      rw [withinSold_iff] at h ⊢
      exact fun r => (granted_wait d r).trans_le (h r)
  | commit tx =>
      have hstep : (∀ s' ∈ (voucherTime S uid db start).step? s (.commit tx), WithinSold uid s') ↔
          (tx.now ≤ s.clock → WithinSold uid (s.record S uid tx)) := by
        simp only [voucherTime]
        split
        next hnow => simp [hnow]
        next hnow => simp [hnow]
      rw [hstep]
      cases tx with
      | redeem env code caller =>
          refine iff_of_true trivial fun hnow => ?_
          rw [VoucherState.record]
          cases hcommits : redeemCommits S env code caller s.db with
          | none => exact h
          | some x =>
              obtain ⟨huser, hredeemable⟩ := redeemCommits_some hcommits
              exact withinSold_redeem hkept h hnow huser hredeemable.newId
      | activate env ridText caller =>
          refine imp_congr_right fun hnow => ?_
          rw [VoucherState.record]
          cases hcommits : activateCommits S env ridText caller s.db with
          | none => exact iff_of_true (fun _ _ hx => by cases hx) h
          | some x =>
              have hx := activateCommits_some hcommits
              rw [Option.elim_some, withinSold_activate_iff hkept h hx.found hx.own]
              simp

/-- A voucher gives no more time than was sold with it exactly as long as no redemption that has been
used is activated again. -/
theorem withinSold_along_iff {db : VoucherDb} {start : Int} (hempty : ∀ r, db.redemptions r = none)
    (actions : List VoucherAction) :
    (voucherTime S uid db start).Along (WithinSold uid) { db := db, clock := start } actions ↔
      (voucherTime S uid db start).Guarded (ActivatesUnused S uid) { db := db, clock := start }
        actions := by
  have hinitial : WithinSold uid (voucherTime S uid db start).initial := by
    rw [withinSold_iff]
    exact fun r => le_rfl
  exact (kept_invariant hempty).along_iff_guarded hinitial fun s a hkept h =>
    withinSold_step_iff hkept h a

/-- A voucher is redeemed, and activated again after 29 of its 30 days. -/
def activatedAgain : List VoucherAction :=
  [.commit (.redeem { clock := 0, newId := 1, now := 0 } (str "SATU") 3),
    .wait (29 * 86400 * 1000000),
    .commit (.activate { now := 29 * 86400 * microseconds } (str "1") 3)]

theorem withinSold_along_iff_activatedAgain :
    (voucherTime plainSetup 3 voucherDb 0).Along (WithinSold 3) { db := voucherDb, clock := 0 }
        activatedAgain ↔
      (voucherTime plainSetup 3 voucherDb 0).Guarded (ActivatesUnused plainSetup 3)
        { db := voucherDb, clock := 0 } activatedAgain :=
  withinSold_along_iff (fun _ => rfl) activatedAgain

theorem not_withinSold_along :
    ¬ ∀ S uid db start actions, (∀ r, db.redemptions r = none) →
      (voucherTime S uid db start).Along (WithinSold uid) { db := db, clock := start } actions := by
  intro h
  have halong := h plainSetup 3 voucherDb 0 activatedAgain fun _ => rfl
  have hlast : WithinSold 3 ((voucherTime plainSetup 3 voucherDb 0).after activatedAgain) :=
    System.Along.after halong (by decide +kernel)
  have hused := hlast (2 * 86400 * 1000000) 1
  revert hused
  decide +kernel

end

end ExamVan.Admin
