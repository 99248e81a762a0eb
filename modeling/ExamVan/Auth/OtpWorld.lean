import ExamVan.Auth.OtpRequests

/-!
# What an operation does to an account

An operation leaves an account alone, writes its OTP, counts an attempt, or changes its status. Every
write of an OTP is counted, so that two reads with one number have read the same OTP.
-/

namespace ExamVan.Auth

open ByteString

namespace AuthWorld

variable {w : AuthWorld} {a b : Account} {f : RegisteredUser → Option RegisteredUser}

@[simp]
theorem user?_modify_self : (w.modify f a).user? a = (w.user? a).bind f := by
  cases a with
  | mem key => exact OrderedMap.find?_modify_self _ _ _
  | db key =>
      simp only [modify, user?, OrderedMap.find?_modify_self]
      cases w.rows.find? key with
      | none => rfl
      | some row =>
          simp only [Option.bind_some, Option.map_some, Option.map_map]
          cases f row.user <;> rfl

theorem user?_modify_of_ne (h : b ≠ a) : (w.modify f a).user? b = w.user? b := by
  cases a <;> cases b
  case mem.mem key key' =>
    exact OrderedMap.find?_modify_of_ne fun heq => h (congrArg _ heq)
  case db.db key key' =>
    have hne : key' ≠ key := fun heq => h (congrArg _ heq)
    exact congrArg (Option.map AdminRow.user) (OrderedMap.find?_modify_of_ne hne)
  all_goals rfl

@[simp]
theorem issue_modify : (w.modify f a).issue = w.issue := by cases a <;> rfl

@[simp]
theorem user?_reissue : (w.reissue a).user? b = w.user? b := by cases b <;> rfl

@[simp]
theorem issue_reissue_self : (w.reissue a).issue a = w.issue a + 1 := by simp [reissue]

theorem issue_reissue_of_ne (h : b ≠ a) : (w.reissue a).issue b = w.issue b := by
  simp [reissue, h]

end AuthWorld

/-! ### What a lookup answers -/

/-- The user stands in the world as it has been read. -/
structure Found.ReadIn (f : Found) (w : AuthWorld) : Prop where
  user : w.user? f.account = some f.user
  issue : f.issue = w.issue f.account

section

variable {lower : Bytes → Bytes} {w : AuthWorld} {f : Found} {a : Account} {o : AuthOp}
  {username : Bytes} {pick : Nat} {pg : PgStep}

theorem readIn_of_memFind (h : (AuthOp.perform lower (.memFind pick username) w).1 = some f) :
    f.ReadIn w := by
  obtain ⟨entry, hentry, rfl⟩ := Option.map_eq_some_iff.mp h
  have hmem := (List.mem_filter.mp (List.mem_of_getElem? hentry)).1
  exact ⟨OrderedMap.find?_eq_some_iff.mpr hmem, rfl⟩

theorem readIn_of_select (h : (AuthOp.perform lower (.select pg username) w).1 = some f) :
    f.ReadIn w := by
  simp only [AuthOp.perform] at h
  split at h
  · obtain ⟨row, hrow, rfl⟩ := Option.map_eq_some_iff.mp h
    exact ⟨congrArg (Option.map AdminRow.user) hrow, rfl⟩
  · cases h

/-! ### What an operation writes -/

/-- The user whom a lookup by username answers. -/
def AuthOp.lookup (lower : Bytes → Bytes) (w : AuthWorld) : AuthOp → Option Found
  | .memFind pick username => (AuthOp.perform lower (.memFind pick username) w).1
  | .select pg username => (AuthOp.perform lower (.select pg username) w).1
  | _ => none

/-- The row that a statement by username finds. -/
def AuthWorld.rowOf (lower : Bytes → Bytes) (w : AuthWorld) (pg : PgStep) (username : Bytes) :
    Option Account :=
  if pg.runs then (w.user? (.db (lower username))).map fun _ => .db (lower username) else none

/-- The entry of the map that a write by username finds. -/
def AuthWorld.entryOf (w : AuthWorld) (username : Bytes) : Option Account :=
  (w.user? (.mem username)).map fun _ => .mem username

/-- The account that an attempt is counted for. -/
def AuthOp.bumps (lower : Bytes → Bytes) (w : AuthWorld) : AuthOp → Option Account
  | .memBump username => w.entryOf username
  | .bump pg username => w.rowOf lower pg username
  | _ => none

/-- The account that a write by username changes. -/
def AuthOp.writes (lower : Bytes → Bytes) (w : AuthWorld) : AuthOp → Option Account
  | .memWrite _ username => w.entryOf username
  | .write pg _ username => w.rowOf lower pg username
  | _ => none

inductive AccountChange (lower : Bytes → Bytes) (o : AuthOp) (w w' : AuthWorld) (a : Account) : Prop
  | same (huser : w'.user? a = w.user? a) (hissue : w'.issue a = w.issue a)
  | rewritten (hissue : w'.issue a = w.issue a + 1)
      (huser : ∀ u ∈ w'.user? a, u.otpCode = [] ∨ u.otpAttempts = 0)
  | bumped (u : RegisteredUser) (hop : o.bumps lower w = some a) (hbefore : w.user? a = some u)
      (hafter : w'.user? a = some u.bumped) (hissue : w'.issue a = w.issue a)
  | status (u : RegisteredUser) (s : Bytes) (hbefore : w.user? a = some u)
      (hafter : w'.user? a = some { u with status := s }) (hissue : w'.issue a = w.issue a)

theorem Write.on_spec {change : Write} {u u' : RegisteredUser} (h : change.on u = some u') :
    u'.otpCode = [] ∨ u'.otpAttempts = 0 := by
  cases change with
  | otp code expiry =>
      cases h
      exact Or.inr rfl
  | activate | password hash =>
      cases h
      exact Or.inl rfl
  | delete => cases h

theorem change_write (change : Write) (b : Account) :
    AccountChange lower o w ((w.modify change.on b).reissue b) a := by
  by_cases hab : a = b
  · subst hab
    refine .rewritten (by simp) fun u hu => ?_
    rw [AuthWorld.user?_reissue, AuthWorld.user?_modify_self, Option.mem_def] at hu
    obtain ⟨u₀, -, hu₀⟩ := Option.bind_eq_some_iff.mp hu
    exact Write.on_spec hu₀
  · refine .same ?_ ?_
    · rw [AuthWorld.user?_reissue, AuthWorld.user?_modify_of_ne hab]
    · rw [AuthWorld.issue_reissue_of_ne hab, AuthWorld.issue_modify]

theorem change_bump {b : Account} (htarget : ∀ u, w.user? b = some u → o.bumps lower w = some b) :
    AccountChange lower o w (w.bumpAt b).2 a := by
  by_cases hab : a = b
  · subst hab
    cases hu : w.user? a with
    | none => exact .same (by simp [AuthWorld.bumpAt, hu]) (by simp [AuthWorld.bumpAt])
    | some u =>
        exact .bumped u (htarget u hu) hu (by simp [AuthWorld.bumpAt, hu])
          (by simp [AuthWorld.bumpAt])
  · exact .same (AuthWorld.user?_modify_of_ne hab) (by simp [AuthWorld.bumpAt])

theorem user?_insert_self {u : RegisteredUser} {key : Bytes} {nextId : Int} :
    ({ w with users := w.users.insert key u, nextId := nextId } : AuthWorld).user? (.mem key) =
      some u := OrderedMap.find?_insert_self _ _ _

theorem change_memAdd {u : RegisteredUser} (hu : u.otpAttempts = 0) :
    AccountChange lower o w (w.memAdd u).2 a := by
  unfold AuthWorld.memAdd
  split
  · exact .same rfl rfl
  dsimp only
  by_cases ha : a = .mem u.username
  · subst ha
    refine .rewritten (by simp) fun v hv => ?_
    rw [AuthWorld.user?_reissue, user?_insert_self, Option.mem_some_iff] at hv
    subst hv
    exact Or.inr hu
  · refine .same ?_ (by rw [AuthWorld.issue_reissue_of_ne ha])
    rw [AuthWorld.user?_reissue]
    cases a with
    | mem key => exact OrderedMap.find?_insert_of_ne fun heq => ha (congrArg _ heq)
    | db key => rfl

theorem change_insertRow {u : RegisteredUser} :
    AccountChange lower o w (w.insertRow lower u).2 a := by
  unfold AuthWorld.insertRow
  dsimp only
  split
  · cases a <;> exact .same rfl rfl
  by_cases ha : a = .db (lower u.username)
  · subst ha
    refine .rewritten (by simp) fun v hv => ?_
    rw [AuthWorld.user?_reissue, AuthWorld.user?, OrderedMap.find?_insert_self, Option.map_some,
      Option.mem_some_iff] at hv
    subst hv
    exact Or.inr rfl
  · refine .same ?_ (by rw [AuthWorld.issue_reissue_of_ne ha])
    rw [AuthWorld.user?_reissue]
    cases a with
    | mem key => rfl
    | db key =>
        have hne : key ≠ lower u.username := fun heq => ha (congrArg _ heq)
        exact congrArg (Option.map AdminRow.user) (OrderedMap.find?_insert_of_ne hne)

theorem change_setStatus {pg : PgStep} {key status : Bytes} {id : Int} {clear : Bool} :
    AccountChange lower o w (AuthOp.perform lower (.setStatus pg key id status clear) w).2 a := by
  simp only [AuthOp.perform]
  split
  case isFalse => exact .same rfl rfl
  split
  case h_1 => exact .same rfl rfl
  next u hu =>
  obtain ⟨hu, -⟩ := Option.filter_eq_some_iff.mp hu
  by_cases ha : a = .db key
  · subst ha
    cases clear with
    | true =>
        refine .rewritten (by simp) fun v hv => ?_
        rw [if_pos rfl, AuthWorld.user?_reissue, AuthWorld.user?_modify_self, hu, Option.bind_some,
          Option.mem_some_iff] at hv
        subst hv
        exact Or.inl rfl
    | false => exact .status u status hu (by simp [hu, RegisteredUser.withStatus]) (by simp)
  · refine .same ?_ ?_ <;> cases clear <;>
      simp [AuthWorld.user?_modify_of_ne ha, AuthWorld.issue_reissue_of_ne ha]

/-- What an operation may do to an account. -/
theorem change_perform (o : AuthOp) (w : AuthWorld) (a : Account)
    (hadd : ∀ u, o = .memAdd u → u.otpAttempts = 0) :
    AccountChange lower o w (o.perform lower w).2 a := by
  cases o with
  | memAdd u => exact change_memAdd (hadd u rfl)
  | memWrite change username => exact change_write change _
  | memBump username => exact change_bump fun u hu => by rw [AuthOp.bumps, AuthWorld.entryOf, hu]; rfl
  | insert pg u =>
      simp only [AuthOp.perform]
      split
      · exact change_insertRow
      · exact .same rfl rfl
  | write pg change username =>
      simp only [AuthOp.perform]
      split
      · exact change_write change _
      · exact .same rfl rfl
  | bump pg username =>
      simp only [AuthOp.perform]
      split
      next hruns =>
        exact change_bump fun u hu => by rw [AuthOp.bumps, AuthWorld.rowOf, if_pos hruns, hu]; rfl
      next => exact .same rfl rfl
  | setStatus pg key id status clear => exact change_setStatus
  | wait seconds => cases a <;> exact .same rfl rfl
  | _ => exact .same rfl rfl

theorem AccountChange.issue_le {w' : AuthWorld} (h : AccountChange lower o w w' a) :
    w.issue a ≤ w'.issue a := by
  cases h <;> omega

end

/-! ### What a request has read -/

/-- An OTP: the account, and the number of the write that it comes from. -/
abbrev Otp := Account × Nat

def Found.otp (f : Found) : Otp := (f.account, f.issue)

/-- The OTP that an account has now. -/
def AuthWorld.otp (w : AuthWorld) (a : Account) : Otp := (a, w.issue a)

/-- The code of the request is the one that has been read. -/
def Guess.Hits (g : Guess) (f : Found) : Prop := g.code ≠ [] ∧ g.code = f.user.otpCode

instance (g : Guess) (f : Found) : Decidable (g.Hits f) := inferInstanceAs (Decidable (_ ∧ _))

def OtpStage.found? : OtpStage → Option Found
  | .start => none
  | .read f | .timed f _ | .right f _ | .wrong f | .counted f _ _ | .disabled f => some f

def AuthOp.isBump : AuthOp → Bool
  | .memBump _ | .bump _ _ => true
  | _ => false

def AuthOp.isWrite : AuthOp → Bool
  | .memWrite _ _ | .write _ _ _ => true
  | _ => false

/-- How an operation takes a request from one stage to the next. -/
inductive OtpMove (lower : Bytes → Bytes) (w : AuthWorld) (request : OtpRequest) (o : AuthOp) :
    OtpStage → OtpStage → Prop
  | idle (stage : OtpStage) (hbump : ∀ f, stage = .wrong f → o.isBump = false)
      (hwrite : ∀ f a n, stage = .counted f a n → o.isWrite = false) :
      OtpMove lower w request o stage stage
  | looked (f : Found) (hlookup : o.lookup lower w = some f) : OtpMove lower w request o .start (.read f)
  | timed (f : Found) (now : Int) : OtpMove lower w request o (.read f) (.timed f now)
  | right (g : Guess) (f : Found) (now : Int) (hguess : request.guess? = some g) (hhits : g.Hits f) :
      OtpMove lower w request o (.timed f now) (.right f now)
  | wrong (g : Guess) (f : Found) (now : Int) (hguess : request.guess? = some g)
      (hmiss : ¬ g.Hits f) : OtpMove lower w request o (.timed f now) (.wrong f)
  | counted (f : Found) (a : Account) (n : Int) (hbump : o.isBump = true) :
      OtpMove lower w request o (.wrong f) (.counted f a n)
  | disabled (f : Found) (a : Account) (n : Int) (hwrite : o.isWrite = true) :
      OtpMove lower w request o (.counted f a n) (.disabled f)

section

variable {lower : Bytes → Bytes} {w : AuthWorld} {request : OtpRequest} {stage : OtpStage}
  {o : AuthOp} {f : Found}

theorem learn_start :
    OtpStage.start.learn lower o (o.perform lower w).1 = (o.lookup lower w).elim .start .read := by
  cases o <;> rfl

theorem move_learn (hallowed : (request.protocol lower).allowed stage o) :
    OtpMove lower w request o stage (stage.learn lower o (o.perform lower w).1) := by
  cases stage with
  | start =>
      rw [learn_start]
      cases hlookup : o.lookup lower w with
      | none => exact .idle _ (fun f hf => by cases hf) fun f a n hf => by cases hf
      | some f => exact .looked f hlookup
  | read f =>
      cases o
      case clock => exact .timed f _
      all_goals exact .idle _ (fun f hf => by cases hf) fun f a n hf => by cases hf
  | timed f now =>
      cases o
      case compared f' isRight =>
        obtain ⟨g, now', hguess, hstage, hright⟩ := hallowed
        obtain ⟨rfl, rfl⟩ := OtpStage.timed.inj hstage
        cases isRight with
        | true => exact .right g f now hguess (hright.mp rfl)
        | false => exact .wrong g f now hguess fun hhits => Bool.false_ne_true (hright.mpr hhits)
      all_goals exact .idle _ (fun f hf => by cases hf) fun f a n hf => by cases hf
  | wrong f =>
      cases o
      case memBump username => exact .counted f _ _ rfl
      case bump pg username => exact .counted f _ _ rfl
      all_goals exact .idle _ (fun _ _ => rfl) fun f a n hf => by cases hf
  | counted f a n =>
      cases o
      case memWrite change username => exact .disabled f a n rfl
      case write pg change username => exact .disabled f a n rfl
      all_goals exact .idle _ (fun f hf => by cases hf) fun _ _ _ _ => rfl
  | right f now | disabled f =>
      cases o <;> exact .idle _ (fun f hf => by cases hf) fun f a n hf => by cases hf

theorem readIn_of_lookup (h : o.lookup lower w = some f) : f.ReadIn w := by
  cases o with
  | memFind pick username => exact readIn_of_memFind h
  | select pg username => exact readIn_of_select h
  | _ => cases h

/-- A request knows whom it knew before, or whom it has just read. -/
theorem OtpMove.found {stage' : OtpStage} (h : OtpMove lower w request o stage stage')
    (hf : f ∈ stage'.found?) : f ∈ stage.found? ∨ f.ReadIn w := by
  cases h with
  | looked f' hlookup =>
      obtain rfl := Option.some.inj hf
      exact Or.inr (readIn_of_lookup hlookup)
  | _ => exact Or.inl hf

end

/-! ### Requests side by side -/

section

variable (lower : Bytes → Bytes)

def stageAt (t : OtpJob) : OtpStage := (t.input.protocol lower).knows t.history

/-- The request keeps to its protocol. -/
def Orderly (t : OtpJob) : Prop :=
  t.Follows (fun request => request.protocol lower) fun _ stage _ => stage.Ended

variable {lower} {w w' : AuthWorld} {s s' : OtpJobs} {t : OtpJob} {o : AuthOp} {i : Nat}
  {next : AuthAns o → AuthProg OtpReply} {guard : OtpJobs → Threads.Action OtpRequest → Prop}

theorem allowed_of_orderly (h : Orderly lower t) (hprogram : t.program = .call o next) :
    (t.input.protocol lower).allowed (stageAt lower t) o := by
  rw [Orderly, Job.Follows, hprogram] at h
  exact h.1

theorem orderly_of_reachable (hs : (otpRequests lower w).Reachable guard s) :
    ∀ t ∈ s.threads, Orderly lower t := by
  have hstart : ∀ request : OtpRequest, (request.protocol lower).Follows
      (fun stage _ => stage.Ended) (request.protocol lower).start request.program :=
    fun request => request.follows
  exact Job.follows_of_reachable hstart hs

/-- A step of a request is an operation that its protocol allows, and a move by what it answers. -/
theorem orderly_step (horderly : ∀ t ∈ s.threads, Orderly lower t)
    (hstep : (otpRequests lower w).step? s (.step i) = some s') :
    ∃ (t t' : OtpJob) (o : AuthOp), s.threads[i]? = some t ∧ t.program.op? = some o ∧
      t'.input = t.input ∧ s' = ⟨(o.perform lower s.world).2, s.threads.set i t'⟩ ∧
      (t.input.protocol lower).allowed (stageAt lower t) o ∧
      OtpMove lower s.world t.input o (stageAt lower t) (stageAt lower t') ∧
      stageAt lower t' = (stageAt lower t).learn lower o (o.perform lower s.world).1 := by
  obtain ⟨t, o, next, ht, hprogram, rfl⟩ := Job.step?_step hstep
  have hallowed := allowed_of_orderly (horderly t (List.mem_of_getElem? ht)) hprogram
  have hlearn : stageAt lower (t.answered o next (o.perform lower s.world).1) =
      (stageAt lower t).learn lower o (o.perform lower s.world).1 := Protocol.knows_append
  refine ⟨t, t.answered o next _, o, ht, by rw [hprogram]; rfl, rfl, rfl, hallowed, ?_, hlearn⟩
  rw [hlearn]
  exact move_learn hallowed

/-- What an operation of a request does to an account. -/
theorem change_of_allowed {request : OtpRequest} {stage : OtpStage} {a : Account}
    (hallowed : (request.protocol lower).allowed stage o) :
    AccountChange lower o w (o.perform lower w).2 a := by
  refine change_perform o w a fun u hu => ?_
  subst hu
  exact hallowed

/-- What has been read is of an OTP up to the present one, and of the present one still the code. -/
structure Found.Dated (f : Found) (w : AuthWorld) : Prop where
  issue : f.issue ≤ w.issue f.account
  code : f.issue = w.issue f.account → ∀ u ∈ w.user? f.account,
    u.otpCode = f.user.otpCode ∧ u.otpExpiryEpoch = f.user.otpExpiryEpoch

theorem Found.ReadIn.dated {f : Found} (h : f.ReadIn w) : f.Dated w where
  issue := h.issue.le
  code := fun _ u hu => by
    rw [h.user, Option.mem_some_iff] at hu
    subst hu
    exact ⟨rfl, rfl⟩

theorem Found.Dated.change {f : Found} (h : f.Dated w)
    (hchange : AccountChange lower o w w' f.account) : f.Dated w' := by
  refine ⟨h.issue.trans hchange.issue_le, fun hissue u hu => ?_⟩
  cases hchange with
  | same huser hsame =>
      rw [huser] at hu
      exact h.code (hissue.trans hsame) u hu
  | rewritten hnext huser =>
      have hle := h.issue
      omega
  | bumped u₀ hop hbefore hafter hsame =>
      rw [hafter, Option.mem_some_iff] at hu
      subst hu
      exact h.code (hissue.trans hsame) u₀ hbefore
  | status u₀ status hbefore hafter hsame =>
      rw [hafter, Option.mem_some_iff] at hu
      subst hu
      exact h.code (hissue.trans hsame) u₀ hbefore

/-- What a request of a run knows is dated. -/
theorem dated_of_reachable (hs : (otpRequests lower w).Reachable guard s) :
    ∀ t ∈ s.threads, ∀ f ∈ (stageAt lower t).found?, f.Dated s.world := by
  induction hs with
  | initial => exact fun t ht => absurd ht List.not_mem_nil
  | @step s s' action hreach _ hstep ih =>
      have horderly := orderly_of_reachable hreach
      cases action with
      | arrive request =>
          cases hstep
          intro t ht f hf
          rcases List.mem_append.mp ht with ht | ht
          · exact ih t ht f hf
          · rw [List.mem_singleton.mp ht] at hf
            cases hf
      | step i =>
          obtain ⟨t, t', o, ht, -, -, rfl, hallowed, hmove, -⟩ := orderly_step horderly hstep
          have hkept : ∀ f : Found, f.Dated s.world → f.Dated (o.perform lower s.world).2 :=
            fun f hf => hf.change (change_of_allowed hallowed)
          intro u hu f hf
          obtain rfl | ⟨j, -, hj⟩ := Threads.mem_set_cases hu
          · rcases hmove.found hf with hold | hread
            · exact hkept f (ih t (List.mem_of_getElem? ht) f hold)
            · exact hkept f hread.dated
          · exact hkept f (ih u (List.mem_of_getElem? hj) f hf)

end

end ExamVan.Auth
