import ExamVan.Api.Approval

/-!
# What an approval promises

The advisory lock keeps the count of a call true until its row is committed, as long as every
approval is written in a transaction that holds the lock. The status of an answer is that of the
device's row when the row is committed; after any failure it is a guess.
-/

namespace ExamVan.Api

open ByteString Models Db Http

/-! ### The table -/

section

variable {t : ApprovalTable} {mac mac' : Bytes} {row : ApprovalRow}

/-- The row approves a device that was not approved. -/
def NewlyApproves (t : ApprovalTable) (mac : Bytes) (row : ApprovalRow) : Prop :=
  isApproved row = true ∧ t.statusOf mac ≠ some approvedStatus

theorem approved_insertRow :
    (t.insertRow mac row).approved + (decide (t.statusOf mac = some approvedStatus)).toNat =
      t.approved + (isApproved row).toNat := by
  have hany : (t.rows.find? mac).any isApproved =
      decide (t.statusOf mac = some approvedStatus) := by
    unfold ApprovalTable.statusOf
    cases t.rows.find? mac <;> simp [isApproved]
  rw [← hany]
  exact OrderedMap.countP_insertEntry t.rows.sorted

theorem approved_insertRow_le (h : ¬ NewlyApproves t mac row) :
    (t.insertRow mac row).approved ≤ t.approved := by
  have hcount := @approved_insertRow t mac row
  by_cases hold : t.statusOf mac = some approvedStatus
  · have := Bool.toNat_le (isApproved row)
    simp only [hold, decide_true, Bool.toNat_true] at hcount
    omega
  · have hnot : isApproved row = false := by
      by_contra hrow
      exact h ⟨Bool.eq_true_of_not_eq_false hrow, hold⟩
    simp only [hold, hnot, decide_false, Bool.toNat_false] at hcount
    omega

theorem approved_insertRow_le_succ : (t.insertRow mac row).approved ≤ t.approved + 1 := by
  have hcount := @approved_insertRow t mac row
  have := Bool.toNat_le (isApproved row)
  omega

theorem statusOf_insertRow_of_ne (h : mac' ≠ mac) :
    (t.insertRow mac row).statusOf mac' = t.statusOf mac' := by
  simp only [ApprovalTable.statusOf, ApprovalTable.insertRow, OrderedMap.find?_insert_of_ne h]

end

/-! ### What holds of a call -/

section

variable (setting : Option Bytes) (e : Int32)

/-- One more approval stays within the cap. -/
def HasRoom (t : ApprovalTable) : Prop :=
  ∀ cap, configuredCap setting = some cap → t.approved < cap

/-- A session with the lock has it in a transaction, whose row is the uncommitted one of the table,
and a transaction that has not failed has the lock. -/
def Held (s : ApprovalSession) (t : ApprovalTable) (written : Option Bytes) (known : Prop) : Prop :=
  (s.holdsLock = true → s.inTransaction = true ∧ t.locked = true ∧ t.uncommitted = written) ∧
    (s.isOpen = true → s.holdsLock = true ∧ known)

/-- What is known of a call by its phase, as far as exam `e` is concerned. -/
def Fits (c : ApprovalCall) (w : Approvals) : Prop :=
  match c.phase with
  | .arrived => True
  | .beginning _ => True
  | .locking _ s => s.holdsLock = false
  | .readingCap r s => r.examId = e → Held s (w e) none True
  | .counting r s cap => r.examId = e → Held s (w e) none (cap = capOf setting)
  | .inserting r s auto => r.examId = e → Held s (w e) none (auto = true → HasRoom setting (w e))
  | .committing r s status row =>
      (r.examId = e → Held s (w e) (row.map fun _ => r.mac)
        (∀ row' ∈ row, NewlyApproves (w e) r.mac row' → HasRoom setting (w e))) ∧
        ∀ row' ∈ row, status = row'.status ∧ s.aborted = false
  | .answered reply left =>
      ∀ status, reply = .granted status → c.env.outcome.pool.configured = true →
        left = some status

/-- The call holds the lock of exam `e`. -/
def Holds (c : ApprovalCall) : Prop :=
  match c.phase with
  | .readingCap r s => r.examId = e ∧ s.holdsLock = true
  | .counting r s _ => r.examId = e ∧ s.holdsLock = true
  | .inserting r s _ => r.examId = e ∧ s.holdsLock = true
  | .committing r s _ _ => r.examId = e ∧ s.holdsLock = true
  | _ => False

/-- One more approval stays within the cap, and another one if a transaction has the lock. -/
def LeavesRoom (t : ApprovalTable) : Prop :=
  ∀ cap ∈ configuredCap setting, t.approved + t.locked.toNat < cap

/-- An INSERT outside a transaction approves a device only if it leaves room, and a call that ends
without its row committed leaves a row with the status that it answers. -/
def Persists (c : ApprovalCall) (w : Approvals) : Prop :=
  match c.phase with
  | .inserting r s auto =>
      s.inTransaction = false → c.env.outcome.runs s c.env.outcome.inserts = true →
        NewlyApproves (w r.examId) r.mac (upsertRow r auto (w r.examId)) →
          LeavesRoom setting (w r.examId)
  | .committing r s status row =>
      (row.isSome = true ∧
          (s.inTransaction = true → c.env.outcome.runs s c.env.outcome.commits = true)) ∨
        (w r.examId).statusOf r.mac = some status
  | _ => True

instance (t : ApprovalTable) (mac : Bytes) (row : ApprovalRow) :
    Decidable (NewlyApproves t mac row) :=
  inferInstanceAs (Decidable (_ ∧ _))

instance (t : ApprovalTable) : Decidable (LeavesRoom setting t) :=
  inferInstanceAs (Decidable (∀ cap ∈ configuredCap setting, t.approved + t.locked.toNat < cap))

instance : ∀ (c : ApprovalCall) (w : Approvals), Decidable (Persists setting c w)
  | ⟨_, _, .inserting _ _ _⟩, _ => inferInstanceAs (Decidable (_ → _ → _ → _))
  | ⟨_, _, .committing _ _ _ _⟩, _ => inferInstanceAs (Decidable (_ ∨ _))
  | ⟨_, _, .arrived⟩, _ => isTrue trivial
  | ⟨_, _, .beginning _⟩, _ => isTrue trivial
  | ⟨_, _, .locking _ _⟩, _ => isTrue trivial
  | ⟨_, _, .readingCap _ _⟩, _ => isTrue trivial
  | ⟨_, _, .counting _ _ _⟩, _ => isTrue trivial
  | ⟨_, _, .answered _ _⟩, _ => isTrue trivial

/-- What a step on the table leaves to a call that holds the lock. -/
structure Keeps (t t' : ApprovalTable) : Prop where
  locked : t'.locked = t.locked
  uncommitted : t'.uncommitted = t.uncommitted
  room : HasRoom setting t → HasRoom setting t'
  statusOf : ∀ mac, t.uncommitted = some mac → t'.statusOf mac = t.statusOf mac

end

section

variable {setting : Option Bytes} {e : Int32} {c c' : ApprovalCall} {w w' : Approvals}
  {s : ApprovalSession} {t t' : ApprovalTable} {written written' : Option Bytes}
  {known known' : Prop}

theorem Keeps.refl (t : ApprovalTable) : Keeps setting t t := ⟨rfl, rfl, id, fun _ _ => rfl⟩

theorem Held.keep (h : Held s t written known) (hkeeps : Keeps setting t t') (himp : known → known') :
    Held s t' written known' :=
  ⟨fun hs => ⟨(h.1 hs).1, hkeeps.locked.trans (h.1 hs).2.1,
      hkeeps.uncommitted.trans (h.1 hs).2.2⟩,
    fun hs => ⟨(h.2 hs).1, himp (h.2 hs).2⟩⟩

/-- Without the lock there is nothing to know. -/
theorem Held.of_not_holds (h : Held s t written known) (hs : ¬ s.holdsLock = true) :
    Held s t' written' known' :=
  ⟨fun hlock => absurd hlock hs, fun hopen => absurd (h.2 hopen).1 hs⟩

theorem Fits.keep (h : Fits setting e c w) (hkeeps : Keeps setting (w e) (w' e)) : Fits setting e c w' := by
  unfold Fits at h ⊢
  split at h
  · trivial
  · trivial
  · exact h
  · exact fun he => (h he).keep hkeeps id
  · exact fun he => (h he).keep hkeeps id
  · exact fun he => (h he).keep hkeeps fun hroom hauto => hkeeps.room (hroom hauto)
  next r s status row _ =>
    refine ⟨fun he => ?_, h.2⟩
    obtain ⟨hlock, hopen⟩ := h.1 he
    refine ⟨((h.1 he).keep hkeeps id).1, fun hs => ⟨(hopen hs).1, fun row' hrow hnew => ?_⟩⟩
    -- the row of an open transaction is locked, so it has the status it had
    have hwritten : (w e).uncommitted = some r.mac := by
      rw [(hlock (hopen hs).1).2.2, Option.mem_def.mp hrow]
      rfl
    refine hkeeps.room ((hopen hs).2 row' hrow ⟨hnew.1, ?_⟩)
    rw [← hkeeps.statusOf _ hwritten]
    exact hnew.2
  · exact h

theorem Fits.of_not_holds (h : Fits setting e c w) (hc : ¬ Holds e c) : Fits setting e c w' := by
  unfold Fits at h ⊢
  unfold Holds at hc
  split at h <;> simp only [*] at hc
  · trivial
  · trivial
  · exact h
  · exact fun he => (h he).of_not_holds fun hs => hc ⟨he, hs⟩
  · exact fun he => (h he).of_not_holds fun hs => hc ⟨he, hs⟩
  · exact fun he => (h he).of_not_holds fun hs => hc ⟨he, hs⟩
  · exact ⟨fun he => (h.1 he).of_not_holds fun hs => hc ⟨he, hs⟩, h.2⟩
  · exact h

theorem Fits.locked_of_holds (h : Fits setting e c w) (hc : Holds e c) : (w e).locked = true := by
  unfold Fits at h
  unfold Holds at hc
  split at h <;> simp only [*] at hc
  · exact ((h hc.1).1 hc.2).2.1
  · exact ((h hc.1).1 hc.2).2.1
  · exact ((h hc.1).1 hc.2).2.1
  · exact ((h.1 hc.1).1 hc.2).2.1

end

/-! ### One step -/

/-- An unlocked table has no uncommitted row. -/
def Tidy (e : Int32) (w : Approvals) : Prop := (w e).locked = false → (w e).uncommitted = none

/-- What a step does for exam `e`. -/
structure Moves (setting : Option Bytes) (e : Int32) (c c' : ApprovalCall) (w w' : Approvals) :
    Prop where
  fits : Fits setting e c' w'
  tidy : Tidy e w'
  capped : ∀ cap, configuredCap setting = some cap → (w' e).approved ≤ max cap (w e).approved
  takes : Holds e c' → Holds e c ∨ (w e).locked = false
  leaves : Keeps setting (w e) (w' e) ∨ Holds e c ∨ (w e).locked = false

section

variable {setting : Option Bytes} {e : Int32} {env : ApprovalEnv} {req : Request}
  {r : ApprovalRequest} {s : ApprovalSession} {c c' : ApprovalCall} {w w' : Approvals}
  {t : ApprovalTable} {written : Option Bytes} {known known' : Prop}

theorem Moves.of_eq (htable : w' e = w e) (htidy : Tidy e w) (hfits : Fits setting e c' w')
    (htakes : Holds e c' → Holds e c) : Moves setting e c c' w w' where
  fits := hfits
  tidy := by
    unfold Tidy
    rw [htable]
    exact htidy
  capped := fun cap _ => by
    rw [htable]
    exact le_max_right cap _
  takes := fun h => Or.inl (htakes h)
  leaves := Or.inl (htable ▸ Keeps.refl _)

@[simp]
theorem isOpen_failed (s : ApprovalSession) : s.failed.isOpen = false := by
  simp [ApprovalSession.failed, ApprovalSession.isOpen]

@[simp]
theorem holdsLock_failed (s : ApprovalSession) : s.failed.holdsLock = s.holdsLock := rfl

theorem Held.fail (h : Held s t written known) : Held s.failed t written known' :=
  ⟨h.1, fun hopen => by simp at hopen⟩

theorem Held.imp (h : Held s t written known) (himp : known → known') : Held s t written known' :=
  ⟨h.1, fun hopen => ⟨(h.2 hopen).1, himp (h.2 hopen).2⟩⟩

theorem moves_locking (htidy : Tidy e w) (hlock : s.holdsLock = false)
    (hnext : (ApprovalCall.mk env req (.locking r s)).next? setting w = some (c', w')) :
    Moves setting e ⟨env, req, .locking r s⟩ c' w w' := by
  have hnolock : ∀ t written known, Held s.failed t written known := fun t written known =>
    ⟨fun h => absurd (hlock.symm.trans h) Bool.false_ne_true, fun h => by simp at h⟩
  simp only [ApprovalCall.next?] at hnext
  split at hnext
  · cases hnext
    exact .of_eq rfl htidy (fun _ => hnolock _ _ _) fun h => by simp [Holds, hlock] at h
  · split at hnext
    · cases hnext
    next hfree =>
      have hunlocked : (w r.examId).locked = false := Bool.eq_false_of_not_eq_true hfree
      split at hnext
      next htx =>
        cases hnext
        refine .of_eq rfl htidy (fun _ => ⟨fun h => ?_, fun h => ?_⟩) fun h => by
          simp [Holds, hlock] at h
        · exact absurd (hlock.symm.trans h) Bool.false_ne_true
        · simp only [Bool.not_eq_true'] at htx
          simp [ApprovalSession.isOpen, htx] at h
      next htx =>
        cases hnext
        by_cases he : r.examId = e
        · subst he
          refine ⟨fun _ => ⟨fun _ => ?_, fun _ => ⟨rfl, trivial⟩⟩, ?_, fun cap _ => ?_,
            fun _ => Or.inr hunlocked, Or.inr (Or.inr hunlocked)⟩
          · rw [Function.update_self]
            exact ⟨by simpa using htx, rfl, htidy hunlocked⟩
          · intro h
            rw [Function.update_self] at h
            cases h
          · rw [Function.update_self]
            exact le_max_right cap _
        · exact .of_eq (Function.update_of_ne (Ne.symm he) ..) htidy (fun h => absurd h he)
            fun h => absurd h.1 he

theorem moves_readingCap (htidy : Tidy e w)
    (hfits : Fits setting e ⟨env, req, .readingCap r s⟩ w)
    (hnext : (ApprovalCall.mk env req (.readingCap r s)).next? setting w = some (c', w')) :
    Moves setting e ⟨env, req, .readingCap r s⟩ c' w w' := by
  simp only [ApprovalCall.next?] at hnext
  split at hnext <;> cases hnext
  · exact .of_eq rfl htidy (fun he => (hfits he).fail) id
  · exact .of_eq rfl htidy (fun he => (hfits he).imp fun _ => rfl) id

theorem moves_counting {cap : Int64} (htidy : Tidy e w)
    (hfits : Fits setting e ⟨env, req, .counting r s cap⟩ w)
    (hnext : (ApprovalCall.mk env req (.counting r s cap)).next? setting w = some (c', w')) :
    Moves setting e ⟨env, req, .counting r s cap⟩ c' w w' := by
  simp only [ApprovalCall.next?] at hnext
  split at hnext
  next huncapped =>
    cases hnext
    refine .of_eq rfl htidy (fun he => (hfits he).imp ?_) id
    rintro rfl hauto limit hlimit
    simp only [hauto, Bool.and_true, Bool.not_eq_true', decide_eq_false_iff_not] at huncapped
    rw [configuredCap, if_neg huncapped] at hlimit
    cases hlimit
  next =>
    split at hnext <;> cases hnext
    · exact .of_eq rfl htidy (fun he => (hfits he).fail) id
    · refine .of_eq rfl htidy (fun he => (hfits he).imp ?_) id
      rintro rfl hauto limit hlimit
      subst he
      rw [decide_eq_true_iff] at hauto
      rw [configuredCap] at hlimit
      split at hlimit
      · cases hlimit
        omega
      · cases hlimit

theorem auto_of_newlyApproves {auto : Bool} (h : NewlyApproves t r.mac (upsertRow r auto t)) :
    auto = true := by
  obtain ⟨hnew, hold⟩ := h
  cases auto with
  | true => rfl
  | false =>
      have hstatus : upsertStatus r.reset false (t.statusOf r.mac) = approvedStatus :=
        of_decide_eq_true hnew
      cases hrow : t.statusOf r.mac with
      | none =>
          rw [hrow] at hstatus
          exact absurd (show pendingStatus = approvedStatus from hstatus) (by decide)
      | some old =>
          rw [hrow] at hstatus hold
          have hne : old ≠ approvedStatus := fun h => hold (congrArg some h)
          simp only [upsertStatus, Bool.false_eq_true, if_false, hne, false_and] at hstatus
          split at hstatus
          · exact absurd hstatus (by decide)
          · exact absurd hstatus hne

theorem LeavesRoom.hasRoom (h : LeavesRoom setting t) : HasRoom setting t := fun cap hcap =>
  (Nat.le_add_right _ _).trans_lt (h cap hcap)

/-- A row that has room stays within the cap. -/
theorem approved_insertRow_max {mac : Bytes} {row : ApprovalRow}
    (hroom : NewlyApproves t mac row → HasRoom setting t) {cap : Nat}
    (hcap : configuredCap setting = some cap) :
    (t.insertRow mac row).approved ≤ max cap t.approved := by
  by_cases hnew : NewlyApproves t mac row
  · have hlt : t.approved < cap := hroom hnew cap hcap
    exact (approved_insertRow_le_succ.trans hlt).trans (le_max_left _ _)
  · exact (approved_insertRow_le hnew).trans (le_max_right _ _)

/-- The room that a call with the lock has counted is there after a row that leaves room. -/
theorem hasRoom_insertRow {mac : Bytes} {row : ApprovalRow}
    (hroom : NewlyApproves t mac row → LeavesRoom setting t) (hlocked : t.locked = true)
    (hcounted : HasRoom setting t) : HasRoom setting (t.insertRow mac row) := by
  intro cap hcap
  by_cases hnew : NewlyApproves t mac row
  · have hlt := hroom hnew cap hcap
    rw [hlocked] at hlt
    exact approved_insertRow_le_succ.trans_lt hlt
  · exact (approved_insertRow_le hnew).trans_lt (hcounted cap hcap)

theorem moves_inserting {auto : Bool} (htidy : Tidy e w)
    (hfits : Fits setting e ⟨env, req, .inserting r s auto⟩ w)
    (hpersists : Persists setting ⟨env, req, .inserting r s auto⟩ w)
    (hnext : (ApprovalCall.mk env req (.inserting r s auto)).next? setting w = some (c', w')) :
    Moves setting e ⟨env, req, .inserting r s auto⟩ c' w w' := by
  simp only [ApprovalCall.next?] at hnext
  split at hnext
  · cases hnext
    exact .of_eq rfl htidy ⟨fun he => (hfits he).fail, fun row hrow => by cases hrow⟩ id
  next hruns =>
    simp only [Bool.not_eq_true, Bool.not_eq_false'] at hruns
    have haborted : s.aborted = false := by
      simp only [ApprovalOutcome.runs, Bool.and_eq_true, Bool.not_eq_true'] at hruns
      exact hruns.2
    split at hnext
    · cases hnext
    next hunlocked =>
      cases hnext
      have hrow : ∀ row' ∈ some (upsertRow r auto (w r.examId)),
          (upsertRow r auto (w r.examId)).status = row'.status ∧ s.aborted = false := by
        rintro _ ⟨⟩
        exact ⟨rfl, haborted⟩
      by_cases he : r.examId = e
      · subst he
        cases htx : s.inTransaction with
        | true =>
            have hheld := hfits rfl
            obtain ⟨hholds, hroom⟩ := hheld.2 (by simp [ApprovalSession.isOpen, htx, haborted])
            refine ⟨⟨fun _ => ⟨fun hlock => ?_, fun _ => ⟨hholds, ?_⟩⟩, hrow⟩, ?_, fun cap _ => ?_,
              fun _ => Or.inl ⟨rfl, hholds⟩, Or.inr (Or.inl ⟨rfl, hholds⟩)⟩
            · rw [Function.update_self, if_pos rfl]
              exact ⟨htx, (hheld.1 hlock).2.1, rfl⟩
            · rw [Function.update_self, if_pos rfl]
              rintro _ ⟨⟩ hnew
              exact hroom (auto_of_newlyApproves hnew)
            · intro hfree
              rw [Function.update_self, if_pos rfl] at hfree
              exact absurd ((hheld.1 hholds).2.1.symm.trans hfree) Bool.false_ne_true.symm
            · rw [Function.update_self, if_pos rfl]
              exact le_max_right cap _
        | false =>
            have hheld := hfits rfl
            have hnolock : ¬ s.holdsLock = true := fun h => by
              rw [(hheld.1 h).1] at htx
              cases htx
            refine ⟨⟨fun _ => hheld.of_not_holds hnolock, hrow⟩, ?_, ?_, fun h => absurd h.2 hnolock,
              ?_⟩
            · intro hfree
              rw [Function.update_self, if_neg Bool.false_ne_true] at hfree ⊢
              exact htidy hfree
            · rw [Function.update_self, if_neg Bool.false_ne_true]
              exact fun cap hcap => approved_insertRow_max
                (fun hnew => (hpersists htx hruns hnew).hasRoom) hcap
            · rw [Function.update_self, if_neg Bool.false_ne_true]
              cases hlocked : (w r.examId).locked with
              | false => exact Or.inr (Or.inr rfl)
              | true =>
                  refine Or.inl ⟨rfl, rfl, hasRoom_insertRow (hpersists htx hruns) hlocked, ?_⟩
                  exact fun mac hmac => statusOf_insertRow_of_ne fun heq => hunlocked (heq ▸ hmac)
      · exact .of_eq (Function.update_of_ne (Ne.symm he) ..) htidy
          ⟨fun h => absurd h he, hrow⟩ fun h => absurd h.1 he

/-- The status of an answer is that of the row which the call leaves exactly if the row is committed or
the one that is there has it. -/
theorem leftStatus_eq_iff {status : Bytes} {row : Option ApprovalRow} {commits : Bool}
    (hrow : ∀ row' ∈ row, status = row'.status) :
    leftStatus t r s commits row = some status ↔
      (row.isSome = true ∧ (s.inTransaction = true → commits = true)) ∨
        t.statusOf r.mac = some status := by
  cases row with
  | none => exact ⟨Or.inr, fun h => h.resolve_left fun h => Bool.false_ne_true h.1⟩
  | some row =>
      unfold leftStatus
      dsimp only
      split
      next hlost =>
        simp only [Bool.and_eq_true, Bool.not_eq_true'] at hlost
        refine ⟨Or.inr, fun h => h.resolve_left fun h => ?_⟩
        exact Bool.false_ne_true (hlost.2.symm.trans (h.2 hlost.1))
      next hkept =>
        rw [hrow row rfl]
        refine iff_of_true rfl (Or.inl ⟨rfl, fun htx => ?_⟩)
        simpa [htx] using hkept

/-- The end of a call that holds no lock changes nothing. -/
theorem finish_of_not_holds {row : Option ApprovalRow} {commits : Bool}
    (hheld : Held s t written known)
    (hrow : ∀ row' ∈ row, s.aborted = false) (hlock : ¬ s.holdsLock = true) :
    t.finish r s commits row = t := by
  unfold ApprovalTable.finish
  cases htx : s.inTransaction with
  | false => rfl
  | true =>
      cases row with
      | none => simp [hlock]
      | some row =>
          have hopen : s.isOpen = true := by simp [ApprovalSession.isOpen, htx, hrow row rfl]
          exact absurd (hheld.2 hopen).1 hlock

theorem approved_finish_le {row : Option ApprovalRow} {commits : Bool}
    (hroom : ∀ row' ∈ row, NewlyApproves t r.mac row' → HasRoom setting t) {cap : Nat}
    (hcap : configuredCap setting = some cap) :
    (t.finish r s commits row).approved ≤ max cap t.approved := by
  have hsame := le_max_right cap t.approved
  unfold ApprovalTable.finish
  split
  · exact hsame
  · cases row with
    | none => exact hsame
    | some row =>
        cases commits with
        | false => exact hsame
        | true =>
            exact approved_insertRow_max (hroom row rfl) hcap

theorem moves_committing {status : Bytes} {row : Option ApprovalRow} (htidy : Tidy e w)
    (hfits : Fits setting e ⟨env, req, .committing r s status row⟩ w)
    (hpersists : Persists setting ⟨env, req, .committing r s status row⟩ w)
    (hnext : (ApprovalCall.mk env req (.committing r s status row)).next? setting w =
      some (c', w')) :
    Moves setting e ⟨env, req, .committing r s status row⟩ c' w w' := by
  obtain ⟨hfits, hrow⟩ := hfits
  simp only [ApprovalCall.next?] at hnext
  cases hnext
  have hanswer : ∀ w', Fits setting e ⟨env, req, .answered (.granted status)
      (leftStatus (w r.examId) r s (env.outcome.runs s env.outcome.commits) row)⟩ w' := by
    rintro w' _ ⟨⟩ _
    exact (leftStatus_eq_iff fun row' hmem => (hrow row' hmem).1).mpr hpersists
  by_cases he : r.examId = e
  · subst he
    have hheld := hfits rfl
    by_cases hlock : s.holdsLock = true
    · obtain ⟨htx, hlocked, hwritten⟩ := hheld.1 hlock
      refine ⟨hanswer _, fun _ => ?_, fun cap hcap => ?_, fun h => h.elim,
        Or.inr (Or.inl ⟨rfl, hlock⟩)⟩
      · rw [Function.update_self]
        unfold ApprovalTable.finish
        rw [if_neg (by simp [htx])]
        cases row with
        | none => exact hwritten
        | some row => rfl
      · rw [Function.update_self]
        refine approved_finish_le (fun row' hmem hnew => ?_) hcap
        have hopen : s.isOpen = true := by
          simp [ApprovalSession.isOpen, htx, (hrow row' hmem).2]
        exact (hheld.2 hopen).2 row' hmem hnew
    · refine .of_eq ?_ htidy (hanswer _) fun h => h.elim
      rw [Function.update_self]
      exact finish_of_not_holds hheld (fun row' hmem => (hrow row' hmem).2) hlock
  · exact .of_eq (Function.update_of_ne (Ne.symm he) ..) htidy (hanswer _) fun h => h.elim

theorem fits_beginApproval : Fits setting e ⟨env, req, beginApproval env req⟩ w := by
  unfold beginApproval
  split
  · rintro _ ⟨⟩
  · split
    · trivial
    · split
      · rintro _ ⟨⟩
      next hconfigured =>
        intro _ _ h
        exact absurd h hconfigured

theorem not_holds_beginApproval : ¬ Holds e ⟨env, req, beginApproval env req⟩ := by
  unfold beginApproval
  split
  · exact id
  · split
    · exact id
    · split <;> exact id

/-- Every step of a call whose failures are covered. -/
theorem moves_next? (htidy : Tidy e w) (hfits : Fits setting e c w) (hpersists : Persists setting c w)
    (hnext : c.next? setting w = some (c', w')) : Moves setting e c c' w w' := by
  obtain ⟨env, req, phase⟩ := c
  cases phase with
  | arrived =>
      cases hnext
      exact .of_eq rfl htidy fits_beginApproval fun h => (not_holds_beginApproval h).elim
  | beginning r =>
      cases hnext
      exact .of_eq rfl htidy rfl fun h => h.elim
  | locking r s => exact moves_locking htidy hfits hnext
  | readingCap r s => exact moves_readingCap htidy hfits hnext
  | counting r s cap => exact moves_counting htidy hfits hnext
  | inserting r s auto => exact moves_inserting htidy hfits hpersists hnext
  | committing r s status row => exact moves_committing htidy hfits hpersists hnext
  | answered reply left => cases hnext

/-- What a step leaves to the calls that hold no lock with it. -/
theorem Moves.others (hmoves : Moves setting e c c' w w') {u : ApprovalCall} (hu : Fits setting e u w) (hcompat : ¬ (Holds e c ∧ Holds e u)) :
    Fits setting e u w' ∧ ¬ (Holds e c' ∧ Holds e u) := by
  have hfree : (w e).locked = false → ¬ Holds e u := fun hfree h =>
    Bool.false_ne_true (hfree.symm.trans (hu.locked_of_holds h))
  constructor
  · rcases hmoves.leaves with hkeeps | hholds | hunlocked
    · exact hu.keep hkeeps
    · exact hu.of_not_holds fun h => hcompat ⟨hholds, h⟩
    · exact hu.of_not_holds (hfree hunlocked)
  · rintro ⟨hc', h⟩
    rcases hmoves.takes hc' with hholds | hunlocked
    · exact hcompat ⟨hholds, h⟩
    · exact hfree hunlocked h

end

/-! ### Whole runs -/

section

variable (setting : Option Bytes) (rows : Int32 → OrderedMap Bytes ApprovalRow) (e : Int32)

/-- The failures of the call that moves are covered. -/
def PersistsAll (s : Threads ApprovalCall Approvals) :
    Threads.Action (ApprovalEnv × Request) → Prop
  | .arrive _ => True
  | .step i => ∀ c ∈ s.threads[i]?, Persists setting c s.world

instance (s : Threads ApprovalCall Approvals) :
    ∀ a : Threads.Action (ApprovalEnv × Request), Decidable (PersistsAll setting s a)
  | .arrive _ => isTrue trivial
  | .step i => inferInstanceAs (Decidable (∀ c ∈ s.threads[i]?, Persists setting c s.world))

/-- No more devices of exam `e` are approved than its cap, unless they were so before. -/
def Capped (w : Approvals) : Prop :=
  ∀ cap, configuredCap setting = some cap →
    (w e).approved ≤ max cap (rows e |>.entries.countP fun entry => isApproved entry.2)

/-- The cap holds, and with a database each status that was answered is that of the committed row. -/
structure Truthful (s : Threads ApprovalCall Approvals) : Prop where
  capped : Capped setting rows e s.world
  truthful : ∀ c ∈ s.threads, ∀ status left, c.phase = .answered (.granted status) left →
    c.env.outcome.pool.configured = true → left = some status

theorem capped_invariant :
    (approvalCalls setting rows).Invariant (PersistsAll setting) fun s =>
      (Capped setting rows e s.world ∧ Tidy e s.world) ∧
        (∀ c ∈ s.threads, Fits setting e c s.world) ∧
          Threads.Compatible (fun c u => ¬ (Holds e c ∧ Holds e u)) s.threads := by
  refine @Threads.invariant_of_compatible _ _ _ _ (ApprovalCall.next? setting) _ _
    (fun w => Capped setting rows e w ∧ Tidy e w) (Fits setting e) (Persists setting)
    (fun c u => ¬ (Holds e c ∧ Holds e u)) ?_ ?_ ?_ ?_ ?_ ?_
  · exact fun h hswap => h hswap.symm
  · exact fun hguard hi => hguard _ hi
  · exact ⟨fun cap _ => le_max_right cap _, fun _ => rfl⟩
  · exact fun _ _ => trivial
  · exact fun _ _ h => h.1
  · rintro c w c' w' ⟨hcapped, htidy⟩ hfits hpersists hnext
    have hmoves := moves_next? htidy hfits hpersists hnext
    refine ⟨⟨fun cap hcap => ?_, hmoves.tidy⟩, hmoves.fits, fun u hu hcompat =>
      hmoves.others hu hcompat⟩
    exact (hmoves.capped cap hcap).trans (max_le (le_max_left _ _) (hcapped cap hcap))

/-- In every run of `request_approval` calls whose failures are covered, for whatever exams, the cap
holds and the answers are true. -/
theorem truthful_of_persistsAll {s : Threads ApprovalCall Approvals}
    (hreach : (approvalCalls setting rows).Reachable (PersistsAll setting) s) :
    Truthful setting rows e s := by
  obtain ⟨⟨hcapped, -⟩, hfits, -⟩ := hreach.holds (capped_invariant setting rows e)
  refine ⟨hcapped, fun c hc status left hphase hconfigured => ?_⟩
  have hanswer := hfits c hc
  unfold Fits at hanswer
  rw [hphase] at hanswer
  exact hanswer status rfl hconfigured

end

/-! ### Two devices -/

def approvalExam : Exam :=
  { id := 7
    activeToken := str "ABCDEFGH"
    status := str "active"
    examStartedAt := some (str "2024-01-01T00:00:00Z")
    autoApprove := true }

def approvalEnv (outcome : ApprovalOutcome) : ApprovalEnv :=
  { getById := fun id => if id = 7 then some approvalExam else none
    outcome := outcome }

def approvalRequest (mac : Bytes) : Request :=
  { body := str "token=ABCDEFGH&exam_id=7&mac_address=" ++ mac }

/-- A device that waits for the lock of another one, with a cap of one. -/
def cappedActions : List (Threads.Action (ApprovalEnv × Request)) :=
  [.arrive (approvalEnv {}, approvalRequest (str "AA")),
    .arrive (approvalEnv {}, approvalRequest (str "BB")), .step 0, .step 1, .step 0, .step 1, .step 0,
    .step 0, .step 0, .step 0, .step 0, .step 1, .step 1, .step 1, .step 1, .step 1]

theorem truthful_cappedActions :
    Truthful (some (str "1")) (fun _ => .empty) 7
      ((approvalCalls (some (str "1")) fun _ => .empty).after cappedActions) :=
  truthful_of_persistsAll _ _ _ (System.reachable_after (by decide +kernel) (by decide +kernel))

/-- One device, with a connection that is lost when it is acquired. -/
def badConnectionActions : List (Threads.Action (ApprovalEnv × Request)) :=
  .arrive (approvalEnv { connection := .bad }, approvalRequest (str "AA")) ::
    List.replicate 7 (.step 0)

theorem not_truthful :
    ¬ ∀ setting rows e s, (approvalCalls setting rows).Reachable System.anyStep s →
      Truthful setting rows e s := by
  intro h
  have hreach : (approvalCalls none fun _ => .empty).Reachable System.anyStep
      ((approvalCalls none fun _ => .empty).after badConnectionActions) :=
    System.reachable_after (by decide +kernel) (System.guarded_anyStep _ _)
  have hanswered : ∃ c ∈ ((approvalCalls none fun _ => .empty).after badConnectionActions).threads,
      c.phase = .answered (.granted approvedStatus) none ∧
        c.env.outcome.pool.configured = true := by decide +kernel
  obtain ⟨c, hc, hphase, hconfigured⟩ := hanswered
  cases (h _ _ 7 _ hreach).truthful c hc _ _ hphase hconfigured

end ExamVan.Api
