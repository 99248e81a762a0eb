import ExamVan.Auth.OtpGuesses

/-!
# An OTP succeeds once

A request with the right code activates the account, or sets its password, by an update that names
the user and nothing else. What the request has checked is the user as it was read; the account may
have been activated, suspended or given another OTP since then.
-/

namespace ExamVan.Auth

open ByteString Db

/-! ### Successes -/

/-- The status that an operation on behalf of a code asks for. -/
def AuthOp.required : AuthOp → Option Bytes
  | .memWrite change _ | .write _ change _ => change.required
  | _ => none

/-- A write that activates an account or sets its password: the code and the user that the request
goes by, and the OTP, the user and the time that the write meets. -/
structure Success where
  guess : Option Guess
  read : Option Found
  otp : Otp
  user : RegisteredUser
  required : Bytes
  clock : Int

section

variable (lower : Bytes → Bytes) (s : OtpJobs)

/-- Every write of this kind that reaches an account. -/
def success? : Threads.Action OtpRequest → Option Success
  | .arrive _ => none
  | .step i => do
      let t ← s.threads[i]?
      let o ← t.program.op?
      let required ← o.required
      let a ← o.writes lower s.world
      let user ← s.world.user? a
      return {
        guess := t.input.guess?
        read := (stageAt lower t).found?
        otp := s.world.otp a
        user := user
        required := required
        clock := s.world.clock }

end

/-- The account is in the required status, and the code is its OTP and in time. -/
structure Success.Right (x : Success) : Prop where
  status : x.user.status = x.required
  code : ∃ g ∈ x.guess, g.code ≠ [] ∧ g.code = x.user.otpCode
  inTime : x.user.expired x.clock = false

/-- Every success is right, and no OTP that has been read succeeds twice. -/
def SucceedOnce (log : List Success) : Prop :=
  (∀ x ∈ log, x.Right) ∧ (log.map fun x => x.read.map Found.otp).Nodup

/-- The account that is written is the one that has been read, with the same OTP and status, and the
OTP has not expired meanwhile. -/
def Success.Undisturbed (x : Success) : Prop :=
  ∀ f ∈ x.read, f.otp = x.otp ∧ f.user.status = x.user.status ∧ f.user.expired x.clock = false

instance : DecidablePred Success.Undisturbed := fun x =>
  inferInstanceAs (Decidable (∀ f ∈ x.read, _))

def Undisturbed (lower : Bytes → Bytes) (s : OtpJobs) (action : Threads.Action OtpRequest) : Prop :=
  ∀ x ∈ success? lower s action, x.Undisturbed

instance (lower : Bytes → Bytes) (s : OtpJobs) : DecidablePred (Undisturbed lower s) := fun action =>
  inferInstanceAs (Decidable (∀ x ∈ success? lower s action, x.Undisturbed))

/-! ### One success -/

section

variable {lower : Bytes → Bytes} {w : AuthWorld} {s s' : OtpJobs} {i : Nat} {o : AuthOp}
  {a : Account} {x : Success} {action : Threads.Action OtpRequest}

theorem success?_step (h : success? lower s (.step i) = some x) :
    ∃ t o a, s.threads[i]? = some t ∧ t.program.op? = some o ∧ o.required = some x.required ∧
      o.writes lower s.world = some a ∧ s.world.user? a = some x.user ∧
        x.guess = t.input.guess? ∧ x.read = (stageAt lower t).found? ∧ x.otp = s.world.otp a ∧
          x.clock = s.world.clock := by
  simp only [success?, Option.bind_eq_bind, Option.bind_eq_some_iff] at h
  obtain ⟨t, ht, o, ho, required, hrequired, a, ha, user, huser, hx⟩ := h
  obtain rfl := Option.some.inj hx
  exact ⟨t, o, a, ht, ho, hrequired, ha, huser, rfl, rfl, rfl, rfl⟩

/-- A request writes so only with the right code of the user whom it has read. -/
theorem passes_of_required {request : OtpRequest} {stage : OtpStage} {status : Bytes}
    (hallowed : (request.protocol lower).allowed stage o) (ho : o.required = some status) :
    ∃ g f now, request.guess? = some g ∧ stage = .right f now ∧ Passes g f now ∧
      g.status = status := by
  have hmay : ∀ {change : Write} {username : Bytes}, MayWrite request.guess? stage change username →
      change.required = some status → ∃ g f now, request.guess? = some g ∧
        stage = .right f now ∧ Passes g f now ∧ g.status = status := by
    intro change username hmay hchange
    obtain ⟨g, f, now, hguess, hstage, hpasses, hstatus, -⟩ := hmay.1 status hchange
    exact ⟨g, f, now, hguess, hstage, hpasses, hstatus⟩
  cases o with
  | memWrite change username | write pg change username => exact hmay hallowed ho
  | _ => cases ho

/-- An undisturbed success is right, and it is the OTP that has been read which succeeds. -/
theorem right_of_undisturbed (horderly : ∀ t ∈ s.threads, Orderly lower t)
    (hdated : ∀ t ∈ s.threads, ∀ f ∈ (stageAt lower t).found?, f.Dated s.world)
    (hx : success? lower s action = some x) (h : x.Undisturbed) :
    x.Right ∧ x.read.map Found.otp = some x.otp := by
  obtain ⟨i, rfl⟩ : ∃ i, action = .step i := by
    cases action with
    | arrive request => cases hx
    | step i => exact ⟨i, rfl⟩
  obtain ⟨t, o, a, ht, ho, hrequired, hwrites, huser, hguess, hread, hotp, hclock⟩ := success?_step hx
  obtain ⟨next, hprogram⟩ := Prog.op?_eq_some ho
  have hmem := List.mem_of_getElem? ht
  have hallowed := allowed_of_orderly (horderly t hmem) hprogram
  obtain ⟨g, f, now, hg, hstage, hpasses, hstatus⟩ := passes_of_required hallowed hrequired
  rw [hstage] at hread
  obtain ⟨hsame, hkept, hfresh⟩ := h f hread
  rw [hotp] at hsame
  obtain ⟨haccount, hissue⟩ := Prod.mk.inj hsame
  have hf : f ∈ (stageAt lower t).found? := by rw [hstage]; rfl
  obtain ⟨hcode, hexpiry⟩ := (hdated t hmem f hf).code (haccount ▸ hissue) x.user (haccount ▸ huser)
  refine ⟨⟨?_, ⟨g, hguess.trans hg, ?_⟩, ?_⟩, ?_⟩
  · calc x.user.status = f.user.status := hkept.symm
      _ = g.status := hpasses.status
      _ = x.required := hstatus
  · exact ⟨hpasses.code.1, hpasses.code.2.trans hcode.symm⟩
  · rw [RegisteredUser.expired, hexpiry]
    exact hfresh
  · rw [hread, hotp]
    exact congrArg some hsame

/-! ### Runs -/

/-- A write that reaches an account gives it another OTP. -/
theorem issue_of_writes (h : o.writes lower w = some a) :
    (o.perform lower w).2.issue a = w.issue a + 1 := by
  cases o with
  | memWrite change username =>
      obtain ⟨u, -, rfl⟩ := Option.map_eq_some_iff.mp h
      simp [AuthOp.perform]
  | write pg change username =>
      simp only [AuthOp.writes, AuthWorld.rowOf] at h
      split at h
      next hruns =>
        obtain ⟨u, -, rfl⟩ := Option.map_eq_some_iff.mp h
        simp [AuthOp.perform, hruns]
      next => cases h
  | _ => cases h

/-- What has been issued stays issued. -/
theorem issue_le_step (horderly : ∀ t ∈ s.threads, Orderly lower t)
    (hstep : (otpRequests lower w).step? s action = some s') (a : Account) :
    s.world.issue a ≤ s'.world.issue a := by
  cases action with
  | arrive request =>
      cases hstep
      exact le_rfl
  | step i =>
      obtain ⟨t, t', o, -, -, -, rfl, hallowed, -, -⟩ := orderly_step horderly hstep
      exact (change_of_allowed hallowed : AccountChange lower o _ _ a).issue_le

/-- The OTP of a success is spent by it. -/
theorem step?_of_success (hx : success? lower s action = some x) :
    ∃ s', (otpRequests lower w).step? s action = some s' ∧
      x.otp.2 = s.world.issue x.otp.1 ∧ x.otp.2 < s'.world.issue x.otp.1 := by
  cases action with
  | arrive request => cases hx
  | step i =>
      obtain ⟨t, o, a, ht, ho, -, hwrites, -, -, -, hotp, -⟩ := success?_step hx
      obtain ⟨next, hprogram⟩ := Prog.op?_eq_some ho
      refine ⟨_, Job.step?_of_call ht hprogram, ?_⟩
      rw [hotp]
      refine ⟨rfl, ?_⟩
      dsimp only [AuthWorld.otp]
      rw [issue_of_writes hwrites]
      exact Nat.lt_succ_self _

/-- The successes of a run from here on, with OTPs from `issue` on. -/
structure Spent (issue : Account → Nat) (log : List Success) : Prop where
  once : SucceedOnce log
  read : ∀ x ∈ log, x.read.map Found.otp = some x.otp
  later : ∀ x ∈ log, issue x.otp.1 ≤ x.otp.2

theorem Spent.nil {issue : Account → Nat} : Spent issue [] where
  once := ⟨fun _ hx => absurd hx List.not_mem_nil, List.nodup_nil⟩
  read := fun _ hx => absurd hx List.not_mem_nil
  later := fun _ hx => absurd hx List.not_mem_nil

theorem Spent.mono {issue issue' : Account → Nat} {log : List Success} (h : Spent issue' log)
    (hle : ∀ a, issue a ≤ issue' a) : Spent issue log where
  once := h.once
  read := h.read
  later := fun x hx => (hle _).trans (h.later x hx)

/-- A success, and then those of other OTPs. -/
theorem Spent.cons {issue issue' : Account → Nat} {log : List Success} (h : Spent issue' log)
    (hle : ∀ a, issue a ≤ issue' a) (hright : x.Right) (hread : x.read.map Found.otp = some x.otp)
    (hissue : x.otp.2 = issue x.otp.1) (hlt : x.otp.2 < issue' x.otp.1) :
    Spent issue (x :: log) where
  once := by
    refine ⟨List.forall_mem_cons.mpr ⟨hright, h.once.1⟩, List.nodup_cons.mpr ⟨?_, h.once.2⟩⟩
    intro hmem
    obtain ⟨y, hy, hsame⟩ := List.mem_map.mp hmem
    have hotp : y.otp = x.otp := Option.some.inj ((h.read y hy).symm.trans (hsame.trans hread))
    have hlater := h.later y hy
    rw [hotp] at hlater
    omega
  read := List.forall_mem_cons.mpr ⟨hread, h.read⟩
  later := List.forall_mem_cons.mpr ⟨hissue.ge, (h.mono hle).later⟩

theorem spent_trace {actions : List (Threads.Action OtpRequest)}
    (hs : (otpRequests lower w).Reachable (Undisturbed lower) s)
    (hguarded : (otpRequests lower w).Guarded (Undisturbed lower) s actions) :
    Spent s.world.issue ((otpRequests lower w).trace (success? lower) s actions) := by
  induction actions generalizing s with
  | nil => exact .nil
  | cons action rest ih =>
      have horderly := orderly_of_reachable hs
      rw [System.trace]
      cases hx : success? lower s action with
      | none =>
          cases hstep : (otpRequests lower w).step? s action with
          | none => exact .nil
          | some s' =>
              have hrest := ih (.step hs hguarded.1 hstep) (hguarded.2 s' hstep)
              exact hrest.mono (issue_le_step horderly hstep)
      | some x =>
          obtain ⟨hright, hread⟩ := right_of_undisturbed horderly (dated_of_reachable hs) hx
            (hguarded.1 x hx)
          obtain ⟨s', hstep, hissue, hlt⟩ := step?_of_success hx
          have hrest := ih (.step hs hguarded.1 hstep) (hguarded.2 s' hstep)
          rw [hstep]
          exact hrest.cons (issue_le_step horderly hstep) hright hread hissue hlt

/-- If no account is written that has changed since it was read, every success is right, and every
OTP succeeds once. -/
theorem succeedOnce_of_guarded {actions : List (Threads.Action OtpRequest)}
    (h : (otpRequests lower w).Guarded (Undisturbed lower) (otpRequests lower w).initial actions) :
    SucceedOnce ((otpRequests lower w).trace (success? lower) (otpRequests lower w).initial
      actions) := (spent_trace .initial h).once

end

/-! ### The same code twice -/

/-- Two requests with the code of budi. -/
def confirmTwice (steps : List Nat) : List (Threads.Action OtpRequest) :=
  registerBudi ++ List.replicate 2 (.arrive (confirmAs (str "budi") (str "123456"))) ++
    steps.map .step

/-- One after the other, the second one is refused. -/
theorem succeedOnce_of_guarded_budi :
    SucceedOnce ((otpRequests id {}).trace (success? id) (otpRequests id {}).initial
      (confirmTwice [1, 1, 1, 1, 1, 2])) :=
  succeedOnce_of_guarded (by decide +kernel)

/-- Both have read the user before either activates the account. -/
theorem not_succeedOnce :
    ¬ ∀ lower w actions, SucceedOnce
      ((otpRequests lower w).trace (success? lower) (otpRequests lower w).initial actions) := by
  intro h
  have honce := (h id {} (confirmTwice [1, 1, 1, 2, 2, 2, 1, 1, 2, 2])).2
  exact absurd honce (by decide +kernel)

end ExamVan.Auth
