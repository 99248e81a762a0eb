import ExamVan.Admin.VoucherRuns
import ExamVan.Lib.Threads

/-!
# Redemptions side by side

The statements of `redeem_voucher` one by one. `SELECT … FOR UPDATE` locks the rows that match until
the transaction ends, and waits while another transaction holds one of them; an inserted id is held
in the same way. What a transaction writes is seen when it is committed.
-/

namespace ExamVan.Admin

open ByteString

/-! ### The threads -/

/-- A row that an open transaction holds. -/
inductive Lock
  | voucher (id : Nat)
  | redemption (id : Int32)
  deriving DecidableEq

/-- The committed database, and the rows that open transactions hold. -/
structure VoucherWorld where
  db : VoucherDb
  locked : List Lock := []

structure RedeemCall where
  env : RedeemEnv
  code : Bytes
  uid : Int32

/-- The statement that is next. -/
inductive RedeemPc
  | user
  | voucher
  | package (id : Nat) (v : Voucher)
  | count (x : Redeeming)
  | insert (x : Redeeming)
  | entitle (x : Redeeming)
  | commit (x : Redeeming)
  | finished (r : VoucherResult)

structure RedeemThread where
  call : RedeemCall
  pc : RedeemPc := .user
  holds : List Lock := []

namespace RedeemThread

/-- The next statement, with rows that are locked before it. -/
def advance (t : RedeemThread) (pc : RedeemPc) (locks : List Lock) (w : VoucherWorld) :
    RedeemThread × VoucherWorld :=
  ({ t with pc := pc, holds := locks ++ t.holds }, { w with locked := locks ++ w.locked })

/-- The end of the transaction, with the database that it leaves. -/
def finish (t : RedeemThread) (r : VoucherResult) (db : VoucherDb) (w : VoucherWorld) :
    RedeemThread × VoucherWorld :=
  ({ t with pc := .finished r, holds := [] }, ⟨db, w.locked.filter fun l => l ∉ t.holds⟩)

/-- `ROLLBACK`, or no transaction at all. -/
def leave (t : RedeemThread) (r : VoucherResult) (w : VoucherWorld) : RedeemThread × VoucherWorld :=
  t.finish r w.db w

/-- One statement of `redeem_voucher`, with what the code does between it and the next. -/
def next (S : VoucherSetup) (t : RedeemThread) (w : VoucherWorld) :
    Option (RedeemThread × VoucherWorld) :=
  let env := t.call.env
  match t.pc with
  | .user =>
      if !env.acquired then some (t.leave .none w)
      else if !env.userRead then some (t.leave .notfound w)
      else
        match w.db.users t.call.uid with
        | none => some (t.leave .notfound w)
        | some user =>
            if Http.containsSuperadmin user.role then some (t.leave .superadmin w)
            else if user.operatorCreated then some (t.leave .operatorCreated w)
            else some (t.advance .voucher [] w)
  | .voucher =>
      let rows := w.db.matching S.upperTrim t.call.code
      if !env.locked then some (t.leave .invalid w)
      -- the statement waits for the transactions that hold one of the rows
      else if rows.any fun row => Lock.voucher row.1 ∈ w.locked then none
      else
        match firstRow env.row rows with
        | none => some (t.leave .invalid w)
        | some (id, v) => some (t.advance (.package id v) (rows.map fun row => .voucher row.1) w)
  | .package id v =>
      if !voucherUsable S.parseTime env.clock v || v.maxUsage ≤ v.usedCount then
        some (t.leave .invalid w)
      else if !v.isCustom && !env.packageRead then some (t.leave .invalid w)
      else
        match w.db.entitlementOf v with
        | none => some (t.leave .invalid w)
        | some (e, maxUsers) => some (t.advance (.count ⟨id, v, e, maxUsers⟩) [] w)
  | .count x => if !env.counted then some (t.leave .fail w) else some (t.advance (.insert x) [] w)
  | .insert x =>
      if !env.inserted || (w.db.redemptions env.newId).isSome then some (t.leave .fail w)
      -- the same id in another transaction
      else if Lock.redemption env.newId ∈ w.locked then none
      else some (t.advance (.entitle x) [.redemption env.newId] w)
  | .entitle x => if !env.entitled then some (t.leave .fail w) else some (t.advance (.commit x) [] w)
  | .commit x =>
      let committed := commitTo env.commit w.db (w.db.redeemed env t.call.uid x)
      some (t.finish committed.1 committed.2 w)
  | .finished _ => none

end RedeemThread

/-- Calls of `redeem_voucher` at any times, in any order of their statements. -/
def redeemers (S : VoucherSetup) (db : VoucherDb) :
    System (Threads RedeemThread VoucherWorld) (Threads.Action RedeemCall) :=
  Threads.system (fun call => { call := call }) (RedeemThread.next S) { db := db }

/-! ### A call that meets no other -/

section

variable {S : VoucherSetup} {call : RedeemCall} {db : VoucherDb} {locks : List Lock}

/-- A call that is over, with what it returns and leaves. -/
def ended (call : RedeemCall) (done : VoucherResult × VoucherDb) : RedeemThread × VoucherWorld :=
  (⟨call, .finished done.1, []⟩, { db := done.2 })

/-- A call at a statement, with all the rows that are held. -/
def atStatement (call : RedeemCall) (pc : RedeemPc) (locks : List Lock) (db : VoucherDb) :
    RedeemThread × VoucherWorld := (⟨call, pc, locks⟩, ⟨db, locks⟩)

theorem finish_alone (pc : RedeemPc) (r : VoucherResult) (db' : VoucherDb) :
    (atStatement call pc locks db).1.finish r db' (atStatement call pc locks db).2 =
      ended call (r, db') := by
  have hnone : locks.filter (fun l => l ∉ locks) = [] :=
    List.filter_eq_nil_iff.mpr fun l hl => by simpa using hl
  exact Prod.ext rfl (congrArg (VoucherWorld.mk db') hnone)

theorem leave_alone (pc : RedeemPc) (r : VoucherResult) :
    (atStatement call pc locks db).1.leave r (atStatement call pc locks db).2 = ended call (r, db) :=
  finish_alone pc r db

theorem alone_of_next {p q e : RedeemThread × VoucherWorld} (hnext : p.1.next S p.2 = some q)
    (h : Threads.Alone (RedeemThread.next S) q e) : Threads.Alone (RedeemThread.next S) p e :=
  Relation.ReflTransGen.head hnext h

theorem alone_leave {pc : RedeemPc} {r : VoucherResult}
    (hnext : (atStatement call pc locks db).1.next S (atStatement call pc locks db).2 =
      some ((atStatement call pc locks db).1.leave r (atStatement call pc locks db).2)) :
    Threads.Alone (RedeemThread.next S) (atStatement call pc locks db) (ended call (r, db)) :=
  alone_of_next hnext (leave_alone pc r ▸ Threads.Alone.refl _)

theorem alone_commit (x : Redeeming) :
    Threads.Alone (RedeemThread.next S) (atStatement call (.commit x) locks db)
      (ended call (commitTo call.env.commit db (db.redeemed call.env call.uid x))) :=
  alone_of_next rfl (finish_alone (.commit x) _ _ ▸ Threads.Alone.refl _)

theorem alone_statements :
    Threads.Alone (RedeemThread.next S) (atStatement call .voucher [] db)
      (ended call (match redeemStatements S call.env call.code db with
        | .error r => (r, db)
        | .ok x => commitTo call.env.commit db (db.redeemed call.env call.uid x))) := by
  generalize hout : redeemStatements S call.env call.code db = out
  unfold redeemStatements at hout
  split at hout
  · subst hout
    next hlocked => exact alone_leave (by simp [RedeemThread.next, atStatement, hlocked])
  next hlocked =>
  have hfree : ((db.matching S.upperTrim call.code).any fun row =>
      Lock.voucher row.1 ∈ ([] : List Lock)) = false := by simp
  split at hout
  · subst hout
    next hrow => exact alone_leave (by simp [RedeemThread.next, atStatement, hlocked, hrow])
  next id v hrow =>
  let locks : List Lock := (db.matching S.upperTrim call.code).map fun row => .voucher row.1
  have hvoucher : (atStatement call .voucher [] db).1.next S (atStatement call .voucher [] db).2 =
      some (atStatement call (.package id v) locks db) := by
    simp [RedeemThread.next, atStatement, hlocked, hrow, RedeemThread.advance, locks]
  refine alone_of_next hvoucher ?_
  split at hout
  · subst hout
    next hgood => exact alone_leave (by simp [RedeemThread.next, atStatement, hgood])
  next hgood =>
  split at hout
  · subst hout
    next hread => exact alone_leave (by simp [RedeemThread.next, atStatement, hgood, hread])
  next hread =>
  split at hout
  · subst hout
    next hgiven => exact alone_leave (by simp [RedeemThread.next, atStatement, hgood, hread, hgiven])
  next e maxUsers hgiven =>
  let x : Redeeming := ⟨id, v, e, maxUsers⟩
  have hpackage : (atStatement call (.package id v) locks db).1.next S
      (atStatement call (.package id v) locks db).2 = some (atStatement call (.count x) locks db) := by
    simp [RedeemThread.next, atStatement, hgood, hread, hgiven, RedeemThread.advance, x]
  refine alone_of_next hpackage ?_
  split at hout
  · subst hout
    next hcounted => exact alone_leave (by simp [RedeemThread.next, atStatement, hcounted])
  next hcounted =>
  have hcount : (atStatement call (.count x) locks db).1.next S
      (atStatement call (.count x) locks db).2 = some (atStatement call (.insert x) locks db) := by
    simp [RedeemThread.next, atStatement, hcounted, RedeemThread.advance]
  refine alone_of_next hcount ?_
  split at hout
  · subst hout
    next hnew => exact alone_leave (by simp [RedeemThread.next, atStatement, hnew])
  next hnew =>
  let both : List Lock := .redemption call.env.newId :: locks
  have hinsert : (atStatement call (.insert x) locks db).1.next S
      (atStatement call (.insert x) locks db).2 = some (atStatement call (.entitle x) both db) := by
    simp [RedeemThread.next, atStatement, hnew, RedeemThread.advance, both, locks]
  refine alone_of_next hinsert ?_
  split at hout
  · subst hout
    next hentitled => exact alone_leave (by simp [RedeemThread.next, atStatement, hentitled])
  next hentitled =>
  have hentitle : (atStatement call (.entitle x) both db).1.next S
      (atStatement call (.entitle x) both db).2 = some (atStatement call (.commit x) both db) := by
    simp [RedeemThread.next, atStatement, hentitled, RedeemThread.advance]
  refine alone_of_next hentitle ?_
  subst hout
  exact alone_commit x

/-- With no other call in between, the statements do what `redeem_voucher` does. -/
theorem alone_redeemWith (call : RedeemCall) (db : VoucherDb) :
    Threads.Alone (RedeemThread.next S) ({ call := call }, { db := db })
      (ended call (redeemWith S call.env call.code call.uid db)) := by
  change Threads.Alone (RedeemThread.next S) (atStatement call .user [] db) _
  unfold redeemWith
  split
  next hacquired => exact alone_leave (by simp [RedeemThread.next, atStatement, hacquired])
  next hacquired =>
  generalize hout : redeemChecks S call.env call.code call.uid db = out
  unfold redeemChecks at hout
  split at hout
  · subst hout
    next hread => exact alone_leave (by simp [RedeemThread.next, atStatement, hacquired, hread])
  next hread =>
  split at hout
  · subst hout
    next huser =>
      exact alone_leave (by simp [RedeemThread.next, atStatement, hacquired, hread, huser])
  next user huser =>
  split at hout
  · subst hout
    next hsuper =>
      exact alone_leave (by simp [RedeemThread.next, atStatement, hacquired, hread, huser, hsuper])
  next hsuper =>
  split at hout
  · subst hout
    next hcreated =>
      exact alone_leave (by
        simp [RedeemThread.next, atStatement, hacquired, hread, huser, hsuper, hcreated])
  next hcreated =>
  have hnext : (atStatement call .user [] db).1.next S (atStatement call .user [] db).2 =
      some (atStatement call .voucher [] db) := by
    simp [RedeemThread.next, atStatement, hacquired, hread, huser, hsuper, hcreated,
      RedeemThread.advance]
  subst hout
  exact alone_of_next hnext alone_statements

end

/-! ### What a thread knows -/

/-- The voucher is held, and its row is the one that was read. -/
structure Secured (db : VoucherDb) (holds : List Lock) (x : Redeeming) : Prop where
  held : .voucher x.voucherId ∈ holds
  row : db.vouchers.find? x.voucherId = some x.voucher
  free : x.voucher.usedCount < x.voucher.maxUsage

def RedeemPc.Known (env : RedeemEnv) (db : VoucherDb) (holds : List Lock) : RedeemPc → Prop
  | .package id v => .voucher id ∈ holds ∧ db.vouchers.find? id = some v
  | .count x => Secured db holds x
  | .insert x => Secured db holds x
  | .entitle x =>
      Secured db holds x ∧ .redemption env.newId ∈ holds ∧ db.redemptions env.newId = none
  | .commit x =>
      Secured db holds x ∧ .redemption env.newId ∈ holds ∧ db.redemptions env.newId = none
  | _ => True

structure RedeemThread.Sound (t : RedeemThread) (w : VoucherWorld) : Prop where
  held : t.holds ⊆ w.locked
  known : t.pc.Known t.call.env w.db t.holds

/-- No row is held by both. -/
def RedeemThread.Apart (t u : RedeemThread) : Prop := List.Disjoint t.holds u.holds

/-- The three ways of a step: the transaction ends without effect, goes on, or is committed. -/
inductive RedeemThread.Moves (S : VoucherSetup) (t : RedeemThread) (w : VoucherWorld) :
    RedeemThread × VoucherWorld → Prop
  | leave (r : VoucherResult) : Moves S t w (t.leave r w)
  | advance (pc : RedeemPc) (locks : List Lock) (hfree : ∀ l ∈ locks, l ∉ w.locked)
      (hknown : pc.Known t.call.env w.db (locks ++ t.holds)) : Moves S t w (t.advance pc locks w)
  | commit (x : Redeeming) (hpc : t.pc = .commit x) (r : VoucherResult) :
      Moves S t w (t.finish r (w.db.redeemed t.call.env t.call.uid x) w)

section

variable {S : VoucherSetup} {t t' : RedeemThread} {w w' : VoucherWorld}

theorem moves_of_next (ht : t.Sound w) (h : t.next S w = some (t', w')) :
    RedeemThread.Moves S t w (t', w') := by
  have hknown := ht.known
  unfold RedeemThread.next at h
  dsimp only at h
  cases hpc : t.pc with
  | user =>
      rw [hpc] at h
      dsimp only at h
      repeat' split at h
      all_goals cases h
      · exact .leave _
      · exact .leave _
      · exact .leave _
      · exact .leave _
      · exact .leave _
      · exact .advance .voucher [] (fun _ hl => absurd hl List.not_mem_nil) trivial
  | voucher =>
      rw [hpc] at h
      dsimp only at h
      split at h
      · cases h
        exact .leave _
      split at h
      · cases h
      next hfree =>
      split at h
      · cases h
        exact .leave _
      next id v hrow =>
      cases h
      have hmem := mem_of_firstRow hrow
      refine .advance (.package id v) _ (fun l hl hlocked => hfree ?_) ⟨?_, ?_⟩
      · obtain ⟨row, hrow, rfl⟩ := List.mem_map.mp hl
        exact List.any_eq_true.mpr ⟨row, hrow, decide_eq_true hlocked⟩
      · exact List.mem_append_left _ (List.mem_map.mpr ⟨(id, v), hmem, rfl⟩)
      · exact OrderedMap.find?_eq_some_iff.mpr (List.mem_filter.mp hmem).1
  | package id v =>
      rw [hpc] at h hknown
      dsimp only at h
      split at h
      · cases h
        exact .leave _
      next hgood =>
      split at h
      · cases h
        exact .leave _
      split at h
      · cases h
        exact .leave _
      next e maxUsers hgiven =>
      cases h
      simp only [Bool.or_eq_true, Bool.not_eq_true', decide_eq_true_eq, not_or, not_le] at hgood
      exact .advance _ [] (fun _ hl => absurd hl List.not_mem_nil) ⟨hknown.1, hknown.2, hgood.2⟩
  | count x =>
      rw [hpc] at h hknown
      dsimp only at h
      split at h
      · cases h
        exact .leave _
      · cases h
        exact .advance _ [] (fun _ hl => absurd hl List.not_mem_nil) hknown
  | insert x =>
      rw [hpc] at h hknown
      dsimp only at h
      split at h
      · cases h
        exact .leave _
      next hnew =>
      split at h
      · cases h
      next hfree =>
      cases h
      simp only [Bool.or_eq_true, Bool.not_eq_true', not_or, Bool.not_eq_true,
        Option.isSome_eq_false_iff, Option.isNone_iff_eq_none] at hnew
      have hsecured : Secured w.db (.redemption t.call.env.newId :: t.holds) x :=
        ⟨List.mem_cons_of_mem _ hknown.held, hknown.row, hknown.free⟩
      exact .advance _ [_] (fun l hl => List.mem_singleton.mp hl ▸ hfree)
        ⟨hsecured, List.mem_cons_self, hnew.2⟩
  | entitle x =>
      rw [hpc] at h hknown
      dsimp only at h
      split at h
      · cases h
        exact .leave _
      · cases h
        exact .advance _ [] (fun _ hl => absurd hl List.not_mem_nil) hknown
  | commit x =>
      rw [hpc] at h
      dsimp only at h
      cases hcommit : t.call.env.commit with
      | refused =>
          rw [hcommit] at h
          cases h
          exact .leave _
      | unanswered =>
          rw [hcommit] at h
          cases h
          exact .commit x hpc _
      | acknowledged =>
          rw [hcommit] at h
          cases h
          exact .commit x hpc _
  | finished r =>
      rw [hpc] at h
      cases h

/-! ### What a step leaves to the other threads -/

theorem find?_redeemed_self {db : VoucherDb} {env : RedeemEnv} {uid : Int32} {x : Redeeming}
    {v : Voucher} (h : db.vouchers.find? x.voucherId = some v) :
    (db.redeemed env uid x).vouchers.find? x.voucherId =
      some { v with usedCount := v.usedCount + 1 } := by
  have hvouchers : (db.redeemed env uid x).vouchers = (db.countUse x.voucherId).vouchers := rfl
  rw [hvouchers, VoucherDb.countUse, h]
  exact OrderedMap.find?_insert_self _ _ _

theorem find?_redeemed_of_ne {db : VoucherDb} {env : RedeemEnv} {uid : Int32} {x : Redeeming}
    {vid : Nat} (h : vid ≠ x.voucherId) :
    (db.redeemed env uid x).vouchers.find? vid = db.vouchers.find? vid := by
  have hvouchers : (db.redeemed env uid x).vouchers = (db.countUse x.voucherId).vouchers := rfl
  rw [hvouchers, VoucherDb.countUse]
  cases db.vouchers.find? x.voucherId with
  | none => rfl
  | some v => exact OrderedMap.find?_insert_of_ne h

/-- What a thread knows rests on the rows that it holds. -/
theorem RedeemPc.Known.frame {env : RedeemEnv} {db db' : VoucherDb} {holds : List Lock}
    {pc : RedeemPc} (h : pc.Known env db holds)
    (hvouchers : ∀ id, .voucher id ∈ holds → db'.vouchers.find? id = db.vouchers.find? id)
    (hredemptions : ∀ id, .redemption id ∈ holds → db'.redemptions id = db.redemptions id) :
    pc.Known env db' holds := by
  have hsecured : ∀ {x}, Secured db holds x → Secured db' holds x := fun hx =>
    ⟨hx.held, (hvouchers _ hx.held).trans hx.row, hx.free⟩
  cases pc with
  | package id v => exact ⟨h.1, (hvouchers _ h.1).trans h.2⟩
  | count x => exact hsecured h
  | insert x => exact hsecured h
  | entitle x => exact ⟨hsecured h.1, h.2.1, (hredemptions _ h.2.1).trans h.2.2⟩
  | commit x => exact ⟨hsecured h.1, h.2.1, (hredemptions _ h.2.1).trans h.2.2⟩
  | user => trivial
  | voucher => trivial
  | finished r => trivial

theorem sound_advance {pc : RedeemPc} {locks : List Lock} (ht : t.Sound w)
    (hknown : pc.Known t.call.env w.db (locks ++ t.holds)) :
    (t.advance pc locks w).1.Sound (t.advance pc locks w).2 :=
  ⟨List.append_subset.mpr ⟨List.subset_append_left _ _,
    List.Subset.trans ht.held (List.subset_append_right _ _)⟩, hknown⟩

theorem sound_finish (r : VoucherResult) (db : VoucherDb) :
    (t.finish r db w).1.Sound (t.finish r db w).2 := ⟨List.nil_subset _, trivial⟩

/-- What an ended transaction held is not held by another one. -/
theorem held_finish {u : RedeemThread} (hu : u.Sound w) (hapart : t.Apart u) (r : VoucherResult)
    (db : VoucherDb) : u.holds ⊆ (t.finish r db w).2.locked := fun _ hl =>
  List.mem_filter.mpr ⟨hu.held hl, decide_eq_true fun htl => hapart htl hl⟩

/-- A step keeps every thread sound and apart from the one that moves. -/
theorem sound_of_moves (ht : t.Sound w) (h : RedeemThread.Moves S t w (t', w')) :
    t'.Sound w' ∧ ∀ u : RedeemThread, u.Sound w → t.Apart u → u.Sound w' ∧ t'.Apart u := by
  cases h with
  | leave r =>
      refine ⟨sound_finish r w.db, fun u hu hapart => ⟨⟨held_finish hu hapart r w.db, hu.known⟩, ?_⟩⟩
      exact List.disjoint_nil_left _
  | advance pc locks hfree hknown =>
      refine ⟨sound_advance ht hknown, fun u hu hapart => ⟨⟨?_, hu.known⟩, ?_⟩⟩
      · exact List.Subset.trans hu.held (List.subset_append_right _ _)
      · refine List.disjoint_append_left.mpr ⟨fun l hl hul => ?_, hapart⟩
        exact hfree l hl (hu.held hul)
  | commit x hpc r =>
      have hknown := ht.known
      rw [hpc] at hknown
      obtain ⟨hsecured, hheld, hnew⟩ := hknown
      refine ⟨sound_finish r _, fun u hu hapart => ⟨⟨held_finish hu hapart r _, ?_⟩, ?_⟩⟩
      · refine hu.known.frame (fun id hid => ?_) fun id hid => ?_
        · refine find?_redeemed_of_ne ?_
          rintro rfl
          exact hapart hsecured.held hid
        · have hne : id ≠ t.call.env.newId := by
            rintro rfl
            exact hapart hheld hid
          exact (congrFun redemptions_redeemed id).trans (Sql.Table.write_of_ne _ _ hne)
      · exact List.disjoint_nil_left _

/-! ### The count -/

/-- The voucher has its limit, has not been used more often, and as often as there are rows of it
that were not there before. -/
def Accounted (before : VoucherDb) (vid : Nat) (maxUsage : Int) (db : VoucherDb) : Prop :=
  ∃ v, db.vouchers.find? vid = some v ∧ v.maxUsage = maxUsage ∧ v.usedCount ≤ maxUsage ∧
    ∃ ids : Finset Int32, v.usedCount = ids.card ∧
      ∀ id, id ∈ ids ↔ before.redemptions id = none ∧
        ∃ row, db.redemptions id = some row ∧ row.voucherId = vid

/-- No redemption is taken back. -/
def Grows (before db : VoucherDb) : Prop :=
  ∀ id, db.redemptions id = none → before.redemptions id = none

theorem accounted_redeemed {before db : VoucherDb} {vid : Nat} {maxUsage : Int} {holds : List Lock}
    {env : RedeemEnv} {uid : Int32} {x : Redeeming} (h : Accounted before vid maxUsage db)
    (hgrows : Grows before db) (hsecured : Secured db holds x)
    (hnew : db.redemptions env.newId = none) :
    Accounted before vid maxUsage (db.redeemed env uid x) := by
  obtain ⟨v, hv, hmax, hle, ids, hcard, hids⟩ := h
  have hfresh : env.newId ∉ ids := by
    rw [hids, hnew]
    rintro ⟨-, row, hrow, -⟩
    cases hrow
  have hrows : ∀ id, (∃ row, (db.redeemed env uid x).redemptions id = some row ∧
      row.voucherId = vid) ↔ (id = env.newId ∧ x.voucherId = vid) ∨
        ∃ row, db.redemptions id = some row ∧ row.voucherId = vid := by
    intro id
    rw [redemptions_redeemed]
    by_cases hid : id = env.newId
    · subst hid
      simp [hnew, newRedemption]
    · rw [Sql.Table.write_of_ne _ _ hid]
      simp [hid]
  by_cases hvid : vid = x.voucherId
  · subst hvid
    rw [hsecured.row] at hv
    cases hv
    refine ⟨_, find?_redeemed_self hsecured.row, hmax, ?_, insert env.newId ids, ?_, fun id => ?_⟩
    · have hfree := hsecured.free
      dsimp only
      omega
    · rw [Finset.card_insert_of_notMem hfresh, hcard]
      push_cast
      rfl
    · rw [Finset.mem_insert, hids, hrows, and_or_left]
      refine or_congr_left ?_
      constructor
      · rintro rfl
        exact ⟨hgrows _ hnew, rfl, rfl⟩
      · exact fun h => h.2.1
  · refine ⟨v, (find?_redeemed_of_ne hvid).trans hv, hmax, hle, ids, hcard, fun id => ?_⟩
    rw [hids, hrows, or_iff_right fun h => hvid h.2.symm]

theorem grows_redeemed {before db : VoucherDb} {env : RedeemEnv} {uid : Int32} {x : Redeeming}
    (h : Grows before db) : Grows before (db.redeemed env uid x) := by
  intro id hnone
  rw [redemptions_redeemed] at hnone
  by_cases hid : id = env.newId
  · rw [hid, Sql.Table.write_self] at hnone
    cases hnone
  · rw [Sql.Table.write_of_ne _ _ hid] at hnone
    exact h id hnone

/-- What holds of the world, whatever statements have been run. -/
structure Sane (before : VoucherDb) (vid : Nat) (maxUsage : Int) (w : VoucherWorld) : Prop where
  accounted : Accounted before vid maxUsage w.db
  grows : Grows before w.db

theorem sane_of_moves {before : VoucherDb} {vid : Nat} {maxUsage : Int}
    (hw : Sane before vid maxUsage w) (ht : t.Sound w)
    (h : RedeemThread.Moves S t w (t', w')) : Sane before vid maxUsage w' := by
  cases h with
  | leave r => exact ⟨hw.accounted, hw.grows⟩
  | advance pc locks hfree hknown => exact ⟨hw.accounted, hw.grows⟩
  | commit x hpc r =>
      have hknown := ht.known
      rw [hpc] at hknown
      exact ⟨accounted_redeemed hw.accounted hw.grows hknown.1 hknown.2.2, grows_redeemed hw.grows⟩

theorem redeemers_invariant {db : VoucherDb} {vid : Nat} {v : Voucher}
    (hv : db.vouchers.find? vid = some v) (hused : v.usedCount = 0) (hmax : 0 ≤ v.maxUsage) :
    (redeemers S db).Invariant System.anyStep fun s =>
      Sane db vid v.maxUsage s.world ∧ (∀ t ∈ s.threads, t.Sound s.world) ∧
        Threads.Compatible RedeemThread.Apart s.threads := by
  have hnone : ∀ id : Int32, id ∈ (∅ : Finset Int32) ↔ db.redemptions id = none ∧
      ∃ row, db.redemptions id = some row ∧ row.voucherId = vid := by
    intro id
    refine iff_of_false (Finset.notMem_empty id) ?_
    rintro ⟨hnone, row, hrow, -⟩
    rw [hnone] at hrow
    cases hrow
  have hinitial : Sane db vid v.maxUsage { db := db } :=
    ⟨⟨v, hv, rfl, hused ▸ hmax, ∅, hused, hnone⟩, fun _ h => h⟩
  refine @Threads.invariant_of_compatible _ _ _ _ _ _ _ _ _ (fun _ _ => True) _ List.Disjoint.symm
    (fun _ _ => trivial) hinitial (fun call w => ⟨List.nil_subset _, trivial⟩)
    (fun call u => List.disjoint_nil_left _) ?_
  intro t w t' w' hw ht _ hnext
  have hmoves := moves_of_next ht hnext
  exact ⟨sane_of_moves hw ht hmoves, sound_of_moves ht hmoves⟩

/-- Whatever calls of `redeem_voucher` come together, and wherever they fail: a voucher that has not
been used is never used more often than its limit, and as often as redemptions of it were
committed. -/
theorem accounted_of_reachable {db : VoucherDb} {vid : Nat} {v : Voucher}
    (hv : db.vouchers.find? vid = some v) (hused : v.usedCount = 0) (hmax : 0 ≤ v.maxUsage)
    {s : Threads RedeemThread VoucherWorld} (hs : (redeemers S db).Reachable System.anyStep s) :
    Accounted db vid v.maxUsage s.world.db :=
  (hs.holds (redeemers_invariant hv hused hmax)).1.accounted

/-- Two calls for one voucher; the first holds the row when the second comes for it. -/
def contended : List (Threads.Action RedeemCall) :=
  [.arrive ⟨{ clock := 0, newId := 1, now := 0 }, str "SATU", 3⟩,
    .arrive ⟨{ clock := 0, newId := 2, now := 0 }, str "SATU", 3⟩,
    .step 0, .step 1, .step 0, .step 0, .step 0, .step 0, .step 0, .step 0, .step 1, .step 1]

theorem accounted_of_reachable_contended :
    Accounted voucherDb 1 1 ((redeemers plainSetup voucherDb).after contended).world.db :=
  accounted_of_reachable (v := { code := str "SATU", package := str "pro" }) (by decide) rfl
    (by decide) (System.reachable_after (by decide +kernel) (System.guarded_anyStep _ _))

end

end ExamVan.Admin
