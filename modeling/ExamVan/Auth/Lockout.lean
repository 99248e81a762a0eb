import ExamVan.Auth.Login

/-!
# The lockout under concurrency

Between the lockout check of a request and the failure that it counts, other requests for the same
username may pass the check as well. All of them verify a password, however many failures are
counted in the meantime.
-/

namespace ExamVan.Auth

open ByteString Db

/-! ### Requests at any times -/

inductive LoginInput
  | login (env : LoginEnv) (req : Http.Request)
  | wait (duration : Nat)

/-- The normalized username that a request is counted under. -/
def LoginInput.name : LoginInput → Option Bytes
  | .login _ req => some (trimLc (loginUsername req))
  | .wait _ => none

def LoginInput.program : LoginInput → LoginProg (Option LoginReply)
  | .login env req => do
      let reply ← loginHandler env req
      return some reply
  | .wait duration => do
      let _ : Unit ← LoginOp.ask (.wait duration)
      return none

abbrev LoginJob := Job LoginInput LoginOp LoginAns (Option LoginReply)

def logins (S : LoginSetup) (w : LoginWorld) :
    System (Threads LoginJob LoginWorld) (Threads.Action LoginInput) :=
  Job.system LoginInput.program (LoginOp.perform S) w

/-! ### What a request may do -/

inductive LoginStage
  | start
  | passed
  | counted
  deriving DecidableEq

def LoginStage.learn : LoginStage → (o : LoginOp) → LoginAns o → LoginStage
  | .start, .check _, locked => if locked then .start else .passed
  | .passed, .fail _, _ | .passed, .succeed _, _ => .counted
  | stage, _, _ => stage

/-- A password is verified, and its outcome counted, only after the check has been passed. -/
def LoginInput.protocol (input : LoginInput) : Protocol LoginOp LoginAns LoginStage where
  start := .start
  learn := LoginStage.learn
  allowed stage
    | .check name => stage = .start ∧ input.name = some name
    | .verify _ _ => stage = .passed
    | .fail name | .succeed name => stage = .passed ∧ input.name = some name
    | .lookup _ _ | .select _ _ | .wait _ => True

/-- A request that has passed the check does not end before its outcome is counted. -/
def LoginStage.Ended (stage : LoginStage) : Prop := stage ≠ .passed

def stageOf (t : LoginJob) : LoginStage := t.input.protocol.knows t.history

/-- The request has passed the check for this username, and its outcome is not counted yet. -/
def passing (name : Bytes) (t : LoginJob) : Bool :=
  t.input.name = some name ∧ stageOf t = .passed

abbrev LoginJobs := Threads LoginJob LoginWorld

/-- How many requests are under way. -/
def LoginJobs.passing (s : LoginJobs) (name : Bytes) : Nat := s.threads.countP (Auth.passing name)

namespace LoginWorld

variable (w : LoginWorld) (name : Bytes)

/-- The failures under a username. -/
def count : Nat := (w.failures name).elim 0 Failure.count

/-- The failures that the check leaves. -/
def countAfterCheck : Nat := (w.check name).2.count name

end LoginWorld

/-- If a check is passed now, no other request for the same username is under way, or the failures
that are counted and the requests under way are fewer than five. -/
def RoomFor (s : LoginJobs) : LoginOp → Prop
  | .check name => s.world.locked name = false → s.passing name = 0 ∨
      s.world.countAfterCheck name + s.passing name < kLoginFailureLimit
  | _ => True

instance (s : LoginJobs) : DecidablePred (RoomFor s)
  | .check _ => inferInstanceAs (Decidable (_ → _ ∨ _))
  | .lookup _ _ | .verify _ _ | .select _ _ | .fail _ | .succeed _ | .wait _ => isTrue trivial

def Room (s : LoginJobs) : Threads.Action LoginInput → Prop
  | .arrive _ => True
  | .step i => ∀ o ∈ Job.nextOp s i, RoomFor s o

instance (s : LoginJobs) : DecidablePred (Room s)
  | .arrive _ => isTrue trivial
  | .step i => inferInstanceAs (Decidable (∀ o ∈ Job.nextOp s i, RoomFor s o))

/-- The next step verifies no password for a username that is locked out. -/
def NoneVerified (s : LoginJobs) : Threads.Action LoginInput → Prop
  | .arrive _ => True
  | .step i => ∀ t ∈ s.threads[i]?, ∀ password hash,
      t.program.op? = some (.verify password hash) →
        ∀ name ∈ t.input.name, s.world.locked name = false

/-- Failures are forgotten after a success, or fifteen minutes after the last of them. -/
def NoneForgotten (s : LoginJobs) (a : Threads.Action LoginInput) (s' : LoginJobs) : Prop :=
  ∀ name, ∀ f ∈ s.world.failures name, f.count ≤ s'.world.count name ∨
    kLoginLockout ≤ s.world.clock - f.last ∨
      ∃ i, a = .step i ∧ Job.nextOp s i = some (.succeed name)

/-! ### Requests keep to the protocol -/

section

variable {S : LoginSetup} {w : LoginWorld} {input : LoginInput} {name username password : Bytes}
  {pg : PgStep}

theorem follows_mapSession :
    input.protocol.Follows (fun stage _ => stage = .passed) .passed
      (mapSession username password) := by
  simp only [mapSession, LoginOp.ask, Prog.op_bind]
  refine ⟨trivial, fun stored => ?_⟩
  dsimp only
  split
  · rfl
  · exact ⟨rfl, fun ok => rfl⟩

theorem follows_rowSession :
    input.protocol.Follows (fun stage _ => stage = .passed) .passed
      (rowSession pg username password) := by
  simp only [rowSession, LoginOp.ask, Prog.op_bind]
  refine ⟨trivial, fun found => ?_⟩
  cases found with
  | none => rfl
  | some row =>
      dsimp only
      split
      · rfl
      · exact ⟨rfl, fun ok => rfl⟩

theorem follows_login (h : input.name = some (trimLc username)) :
    input.protocol.Follows (fun stage _ => stage.Ended) .start (login pg username password) := by
  simp only [login, LoginOp.ask, Prog.op_bind]
  refine ⟨⟨rfl, h⟩, fun locked => ?_⟩
  cases locked with
  | true => exact fun hpassed => by cases hpassed
  | false =>
      refine follows_mapSession.bind ?_
      rintro _ inMap rfl
      have hcounts : ∀ {reply : LoginReply} {o : LoginOp},
          o = .fail (trimLc username) ∨ o = .succeed (trimLc username) →
            input.protocol.Follows (fun stage _ => stage.Ended) .passed
              (.call o fun _ => .done reply) := by
        rintro reply o (rfl | rfl) <;> exact ⟨⟨rfl, h⟩, fun _ hpassed => by cases hpassed⟩
      cases inMap with
      | some session => exact hcounts (Or.inr rfl)
      | none =>
          refine follows_rowSession.bind ?_
          rintro _ session rfl
          cases session with
          | none => exact hcounts (Or.inl rfl)
          | some session => exact hcounts (Or.inr rfl)

theorem follows_program (input : LoginInput) :
    input.protocol.Follows (fun stage _ => stage.Ended) .start input.program := by
  cases input with
  | wait duration => exact ⟨trivial, fun _ hpassed => by cases hpassed⟩
  | login env req =>
      have hended : ∀ {reply : LoginReply}, (LoginInput.login env req).protocol.Follows
          (fun stage _ => stage.Ended) .start (Prog.done reply) :=
        fun {_} hpassed => by cases hpassed
      have hhandler : (LoginInput.login env req).protocol.Follows (fun stage _ => stage.Ended)
          .start (loginHandler env req) := by
        unfold loginHandler
        split
        · exact hended
        split
        · exact hended
        split
        · exact hended
        split
        · exact hended
        exact follows_login rfl
      exact hhandler.bind fun stage reply hstage => hstage

/-! ### Failures and requests under way -/

@[simp]
theorem fst_check : (w.check name).1 = w.locked name := by
  unfold LoginWorld.check LoginWorld.locked
  cases w.failures name with
  | none => rfl
  | some f => grind

theorem check_of_locked (h : w.locked name = true) : (w.check name).2 = w := by
  unfold LoginWorld.locked at h
  unfold LoginWorld.check
  cases hfailures : w.failures name with
  | none => rfl
  | some f =>
      rw [hfailures] at h
      exact congrArg Prod.snd (if_pos (of_decide_eq_true h))

theorem countAfterCheck_lt (h : w.locked name = false) :
    w.countAfterCheck name < kLoginFailureLimit := by
  unfold LoginWorld.locked at h
  unfold LoginWorld.countAfterCheck LoginWorld.count LoginWorld.check
  cases hfailures : w.failures name with
  | none => simp [hfailures, kLoginFailureLimit]
  | some f =>
      rw [hfailures] at h
      have hfew := of_decide_eq_false h
      dsimp only
      rw [if_neg hfew]
      split
      next => simp [LoginWorld.setFailures, kLoginFailureLimit]
      next hrecent =>
        rw [hfailures, Option.elim_some]
        exact not_le.mp fun hmany => hfew ⟨not_le.mp hrecent, hmany⟩

theorem count_setFailures_self {f : Option Failure} :
    (w.setFailures name f).count name = f.elim 0 Failure.count := by
  simp [LoginWorld.count, LoginWorld.setFailures]

theorem count_setFailures_of_ne {other : Bytes} {f : Option Failure} (h : other ≠ name) :
    (w.setFailures name f).count other = w.count other := by
  simp [LoginWorld.count, LoginWorld.setFailures, h]

theorem count_check_of_ne {other : Bytes} (h : other ≠ name) :
    (w.check name).2.count other = w.count other := by
  unfold LoginWorld.check
  split
  · rfl
  · split
    · rfl
    · split
      · exact count_setFailures_of_ne h
      · rfl

variable {t : LoginJob} {s s' : LoginJobs} {o : LoginOp} {i : Nat}
  {next : LoginAns o → LoginProg (Option LoginReply)} {a : LoginAns o}

theorem stageOf_answered : stageOf (t.answered o next a) = (stageOf t).learn o a :=
  Protocol.knows_append

/-- With five failures counted nobody is under way, and with fewer no more than are left. -/
def Seated (s : LoginJobs) : Prop :=
  ∀ name, s.passing name = 0 ∨ s.world.count name + s.passing name ≤ kLoginFailureLimit

/-- A step that leaves the stage of its request. -/
theorem seated_of_same (h : Seated s) (ht : s.threads[i]? = some t) {w' : LoginWorld}
    {t' : LoginJob} (hinput : t'.input = t.input) (hstage : stageOf t' = stageOf t)
    (hcount : ∀ name, w'.count name = s.world.count name) : Seated ⟨w', s.threads.set i t'⟩ := by
  intro name
  have hset := Threads.countP_set_add t' (passing name) ht
  have hsame : passing name t' = passing name t := by simp [passing, hinput, hstage]
  rw [hsame] at hset
  have hpassing : LoginJobs.passing ⟨w', s.threads.set i t'⟩ name = s.passing name :=
    Nat.add_right_cancel hset
  rw [hpassing, hcount]
  exact h name

/-- A step that counts the outcome of its request, with no more failures than one for it. -/
theorem seated_of_counted (h : Seated s) (ht : s.threads[i]? = some t)
    (hname : t.input.name = some name) (hpassed : stageOf t = .passed) {w' : LoginWorld}
    {t' : LoginJob} (hstage : stageOf t' = .counted)
    (hcount : w'.count name ≤ s.world.count name + 1)
    (hother : ∀ other, other ≠ name → w'.count other = s.world.count other) :
    Seated ⟨w', s.threads.set i t'⟩ := by
  intro other
  have hset := Threads.countP_set_add t' (passing other) ht
  have hafter : passing other t' = false := by simp [passing, hstage]
  rw [hafter, Bool.toNat_false, Nat.add_zero] at hset
  change LoginJobs.passing ⟨w', s.threads.set i t'⟩ other + _ = s.passing other at hset
  by_cases hother' : other = name
  · subst hother'
    have hbefore : passing other t = true := by simp [passing, hname, hpassed]
    rw [hbefore, Bool.toNat_true] at hset
    have hseated := h other
    dsimp only
    omega
  · have hbefore : passing other t = false := by simp [passing, hname, Ne.symm hother']
    rw [hbefore, Bool.toNat_false, Nat.add_zero] at hset
    rw [hset, hother other hother']
    exact h other

/-- A step that passes the check. -/
theorem seated_of_passed (h : Seated s) (ht : s.threads[i]? = some t)
    (hname : t.input.name = some name) (hstart : stageOf t = .start) {w' : LoginWorld}
    {t' : LoginJob} (hinput : t'.input = t.input) (hstage : stageOf t' = .passed)
    (hcount : w'.count name < kLoginFailureLimit)
    (hroom : s.passing name = 0 ∨ w'.count name + s.passing name < kLoginFailureLimit)
    (hother : ∀ other, other ≠ name → w'.count other = s.world.count other) :
    Seated ⟨w', s.threads.set i t'⟩ := by
  intro other
  have hset := Threads.countP_set_add t' (passing other) ht
  have hbefore : passing other t = false := by simp [passing, hstart]
  rw [hbefore, Bool.toNat_false, Nat.add_zero] at hset
  change LoginJobs.passing ⟨w', s.threads.set i t'⟩ other = s.passing other + _ at hset
  by_cases hother' : other = name
  · subst hother'
    have hafter : passing other t' = true := by simp [passing, hinput, hname, hstage]
    rw [hafter, Bool.toNat_true] at hset
    dsimp only
    omega
  · have hafter : passing other t' = false := by
      simp [passing, hinput, hname, Ne.symm hother']
    rw [hafter, Bool.toNat_false, Nat.add_zero] at hset
    rw [hset, hother other hother']
    exact h other

/-- Every request of a run keeps to the protocol. -/
def Obedient (t : LoginJob) : Prop := t.Follows LoginInput.protocol fun _ stage _ => stage.Ended

theorem allowed_of_obedient (h : Obedient t) (hprogram : t.program = .call o next) :
    t.input.protocol.allowed (stageOf t) o := by
  rw [Obedient, Job.Follows, hprogram] at h
  exact h.1

theorem seated_step {action : Threads.Action LoginInput} (h : Seated s)
    (hobedient : ∀ t ∈ s.threads, Obedient t) (hroom : Room s action)
    (hstep : (logins S w).step? s action = some s') : Seated s' := by
  cases action with
  | arrive input =>
      cases hstep
      intro name
      have hnew : passing name (Job.start LoginInput.program input) = false := by
        simp [passing, stageOf, Job.start, LoginInput.protocol]
      have hpassing : LoginJobs.passing
          ⟨s.world, s.threads ++ [Job.start LoginInput.program input]⟩ name = s.passing name := by
        simp [LoginJobs.passing, List.countP_append, hnew]
      exact hpassing ▸ h name
  | step i =>
      obtain ⟨t, o, next, ht, hprogram, rfl⟩ := Job.step?_step hstep
      have hallowed := allowed_of_obedient (hobedient t (List.mem_of_getElem? ht)) hprogram
      have hroomFor : RoomFor s o := hroom o (Job.nextOp_of_call ht hprogram)
      have hstage := @stageOf_answered t o next
      cases o with
      | check name =>
          cases hlocked : s.world.locked name with
          | true =>
              have hworld := check_of_locked hlocked
              refine seated_of_same h ht rfl ?_ fun other => ?_
              · rw [hstage, hallowed.1]
                simp [LoginOp.perform, LoginStage.learn, hlocked]
              · exact congrArg (LoginWorld.count · other) hworld
          | false =>
              refine seated_of_passed h ht hallowed.2 hallowed.1 rfl ?_ (countAfterCheck_lt hlocked)
                (hroomFor hlocked) fun other hother => count_check_of_ne hother
              rw [hstage, hallowed.1]
              simp [LoginOp.perform, LoginStage.learn, hlocked]
      | fail name =>
          refine seated_of_counted h ht hallowed.2 hallowed.1 ?_ ?_ fun other hother =>
            count_setFailures_of_ne hother
          · rw [hstage, hallowed.1]
            rfl
          · rw [LoginOp.perform, count_setFailures_self, Option.elim_some, LoginWorld.count]
            cases s.world.failures name <;> rfl
      | succeed name =>
          refine seated_of_counted h ht hallowed.2 hallowed.1 ?_ ?_ fun other hother =>
            count_setFailures_of_ne hother
          · rw [hstage, hallowed.1]
            rfl
          · rw [LoginOp.perform, count_setFailures_self]
            exact Nat.zero_le _
      | lookup username name | verify password hash | select pg name | wait duration =>
          refine seated_of_same h ht rfl ?_ fun other => rfl
          rw [hstage]
          cases stageOf t <;> rfl

theorem seated_of_reachable (hs : (logins S w).Reachable Room s) :
    (∀ t ∈ s.threads, Obedient t) ∧ Seated s := by
  have hobedient : (∀ t ∈ s.threads, Obedient t) := Job.follows_of_reachable follows_program hs
  refine ⟨hobedient, ?_⟩
  induction hs with
  | initial => exact fun name => Or.inl rfl
  | step hreach hguard hstep ih =>
      have hbefore := Job.follows_of_reachable follows_program hreach
      exact seated_step (ih hbefore) hbefore hguard hstep

/-! ### The lockout -/

theorem noneVerified_of_seated (h : Seated s) (hobedient : ∀ t ∈ s.threads, Obedient t)
    (action : Threads.Action LoginInput) : NoneVerified s action := by
  cases action with
  | arrive input => trivial
  | step i =>
      intro t ht password hash hop name hname
      obtain ⟨next, hprogram⟩ : ∃ next, t.program = .call (.verify password hash) next := by
        cases hp : t.program with
        | done reply => rw [hp] at hop; cases hop
        | call o next =>
            rw [hp] at hop
            cases hop
            exact ⟨next, rfl⟩
      have hpassed : stageOf t = .passed :=
        allowed_of_obedient (hobedient t (List.mem_of_getElem? ht)) hprogram
      have hpassing : 0 < s.passing name := by
        refine List.countP_pos_iff.mpr ⟨t, List.mem_of_getElem? ht, ?_⟩
        simp [passing, Option.mem_def.mp hname, hpassed]
      have hseated := h name
      have hcount : s.world.count name < kLoginFailureLimit := by omega
      unfold LoginWorld.locked
      unfold LoginWorld.count at hcount
      cases hfailures : s.world.failures name with
      | none => rfl
      | some f =>
          rw [hfailures, Option.elim_some] at hcount
          exact decide_eq_false fun hlocked => absurd hlocked.2 (not_le.mpr hcount)

theorem noneForgotten_step {action : Threads.Action LoginInput}
    (hstep : (logins S w).step? s action = some s') : NoneForgotten s action s' := by
  intro name f hf
  have hkept : ∀ {w' : LoginWorld}, w'.failures name = s.world.failures name →
      f.count ≤ w'.count name := by
    intro w' hsame
    rw [LoginWorld.count, hsame, Option.mem_def.mp hf, Option.elim_some]
  cases action with
  | arrive input =>
      cases hstep
      exact Or.inl (hkept rfl)
  | step i =>
      obtain ⟨t, o, next, ht, hprogram, rfl⟩ := Job.step?_step hstep
      cases o with
      | check other =>
          by_cases hname : name = other
          · subst hname
            dsimp only [LoginOp.perform, LoginWorld.check]
            rw [Option.mem_def.mp hf]
            dsimp only
            split
            · exact Or.inl (hkept rfl)
            split
            next => exact Or.inr (Or.inl ‹_›)
            · exact Or.inl (hkept rfl)
          · have hcount : (s.world.check other).2.count name = s.world.count name :=
              count_check_of_ne hname
            exact Or.inl (hcount ▸ hkept rfl)
      | fail other =>
          refine Or.inl ?_
          by_cases hname : name = other
          · subst hname
            rw [LoginOp.perform, count_setFailures_self, Option.mem_def.mp hf]
            exact Nat.le_succ _
          · rw [LoginOp.perform, count_setFailures_of_ne hname]
            exact hkept rfl
      | succeed other =>
          by_cases hname : name = other
          · subst hname
            exact Or.inr (Or.inr ⟨i, rfl, Job.nextOp_of_call ht hprogram⟩)
          · rw [LoginOp.perform, count_setFailures_of_ne hname]
            exact Or.inl (hkept rfl)
      | lookup username other | verify password hash | select pg other | wait duration =>
          exact Or.inl (hkept rfl)

/-- As long as the failures and the requests under way leave room, no password is verified for a
username that is locked out, and its failures are forgotten after a success or in time. -/
theorem lockout_of_reachable (hs : (logins S w).Reachable Room s)
    (action : Threads.Action LoginInput) :
    NoneVerified s action ∧
      ∀ s' ∈ (logins S w).step? s action, NoneForgotten s action s' := by
  obtain ⟨hobedient, hseated⟩ := seated_of_reachable hs
  exact ⟨noneVerified_of_seated hseated hobedient action, fun s' hstep => noneForgotten_step hstep⟩

end

/-! ### A burst of guesses -/

def plainLogin : LoginSetup := ⟨fun password hash => password == hash, id⟩

def oneUser : LoginWorld where
  users := fun name => if name = str "guru" then some (str "rahasia") else none

/-- A request with a form, while the database refuses every statement. -/
def guess (username password : Bytes) : LoginInput :=
  .login { pg := { succeeds := false } }
    { body := str "username=" ++ username ++ str "&password=" ++ password }

/-- Two guesses one after the other. -/
def twoGuesses : List (Threads.Action LoginInput) :=
  [.arrive (guess (str "guru") (str "a")), .arrive (guess (str "GURU") (str "b")),
    .step 0, .step 0, .step 0, .step 0, .step 0, .step 1, .step 1]

theorem lockout_of_reachable_twoGuesses :
    NoneVerified ((logins plainLogin oneUser).after twoGuesses) (.step 1) ∧
      ∀ s' ∈ (logins plainLogin oneUser).step? ((logins plainLogin oneUser).after twoGuesses)
        (.step 1), NoneForgotten ((logins plainLogin oneUser).after twoGuesses) (.step 1) s' :=
  lockout_of_reachable (System.reachable_after (by decide +kernel) (by decide +kernel)) (.step 1)

/-- Six guesses pass the check, and five of them fail. -/
def burst : List (Threads.Action LoginInput) :=
  [.arrive (guess (str "guru") (str "a")), .arrive (guess (str "GURU") (str "b")),
    .arrive (guess (str "Guru") (str "c")), .arrive (guess (str "+guru") (str "d")),
    .arrive (guess (str "guru") (str "e")), .arrive (guess (str "guru") (str "f"))] ++
  (List.range 6).flatMap (fun i => [.step i, .step i]) ++
  (List.range 5).flatMap (fun i => [.step i, .step i, .step i])

theorem not_lockout_of_reachable :
    ¬ ∀ S w s, (logins S w).Reachable System.anyStep s → ∀ action, NoneVerified s action ∧
      ∀ s' ∈ (logins S w).step? s action, NoneForgotten s action s' := by
  intro h
  have hreach : (logins plainLogin oneUser).Reachable System.anyStep
      ((logins plainLogin oneUser).after burst) :=
    System.reachable_after (by decide +kernel) (System.guarded_anyStep _ _)
  have hverified := (h _ _ _ hreach (.step 5)).1
  have hlocked : ((logins plainLogin oneUser).after burst).world.locked (str "guru") = true := by
    decide +kernel
  have hnext : (((logins plainLogin oneUser).after burst).threads[5]?.map fun t =>
      (t.program.op?, t.input.name)) =
        some (some (.verify (str "f") (str "rahasia")), some (str "guru")) := by
    decide +kernel
  obtain ⟨t, ht, hsixth⟩ := Option.map_eq_some_iff.mp hnext
  obtain ⟨hop, hname⟩ := Prod.mk.inj hsixth
  have hunlocked := hverified t ht _ _ hop _ hname
  rw [hlocked] at hunlocked
  cases hunlocked

end ExamVan.Auth
