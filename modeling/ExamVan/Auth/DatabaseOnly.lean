import ExamVan.Auth.OtpRequests
import ExamVan.Auth.UniqueUsers

/-!
# Accounts in the database

With a database the map in memory is meant to stay empty, so that every function of the store goes
on to the row. An account gets into the map where `insert_registered_user` goes on to `mem_insert`.
-/

namespace ExamVan.Auth

open ByteString Db Http

/-! ### Requests with a database -/

def PgStep.configured (pg : PgStep) : Bool := pg.pool.configured

/-- `DATABASE_URL` is set. -/
def OtpEnv.configured (env : OtpEnv) : Bool :=
  env.find.configured && env.findByEmail.configured && env.count.configured && env.write.configured

def OtpRequest.configured : OtpRequest → Bool
  | .confirm env _ | .reset env _ | .webhook env _ | .resend env _ | .forgot env _
  | .register env _ => env.configured
  | .toggleStatus x | .verify x => x.read.configured && x.write.configured
  | .wait _ => true

/-- Nobody is in memory, and no request is about to write there. -/
structure InDatabase (s : OtpJobs) : Prop where
  empty : s.world.users = OrderedMap.empty
  rows : ∀ t ∈ s.threads, ∀ o ∈ t.program.op?, ¬ o.WritesMemory

/-- Whether the `INSERT` of a registration adds its row. -/
def RowInserted (lower : Bytes → Bytes) (pg : PgStep) (u : RegisteredUser) (w : AuthWorld) :
    Prop :=
  pg.runs = true ∧ w.rows.find? (lower u.username) = none

/-- An account that `mem_insert` does not refuse gets its row. -/
def AuthOp.Inserts (lower : Bytes → Bytes) : AuthOp → AuthWorld → Prop
  | .insert pg u, w => u.username ≠ [] → u.passwordHash ≠ [] → RowInserted lower pg u w
  | _, _ => True

/-- All requests have been answered in the end. -/
def Answered (lower : Bytes → Bytes) (w : AuthWorld) (actions : List (Threads.Action OtpRequest)) :
    Prop :=
  ∃ s, (otpRequests lower w).run? (otpRequests lower w).initial actions = some s ∧
    ∀ t ∈ s.threads, ∃ reply, t.program = .done reply

/-! ### What a request knows of the map -/

/-- `met`: a lookup in the map has found somebody. `failed`: an `INSERT` has failed, and the account
is not in the map yet. -/
structure Fallback where
  met : Bool := false
  failed : Bool := false

namespace Fallback

/-- An account whose `INSERT` has failed is only given up because of another one in memory. -/
def Settled (k : Fallback) : Prop := k.failed = true → k.met = true

def learn : Fallback → (o : AuthOp) → AuthAns o → Fallback
  | k, .memFind _ _, found | k, .memFindByEmail _ _, found =>
      { k with met := k.met || Option.isSome found }
  | k, .insert _ u, inserted =>
      { k with failed := k.failed || (!inserted && u.username != [] && u.passwordHash != []) }
  | k, .memAdd _, _ => { k with failed := false }
  | k, _, _ => k

def allowed : Fallback → AuthOp → Prop
  | k, .memAdd _ => k.failed = true
  | k, .memWrite _ _ | k, .memBump _ => k.met = true
  | _, _ => True

def protocol : Protocol AuthOp AuthAns Fallback := ⟨{}, learn, allowed⟩

/-- Whatever it knows before, the program writes into memory only where it may. -/
def Sound {α : Type} (p : AuthProg α) : Prop :=
  ∀ k : Fallback, k.Settled → protocol.Follows (fun k' _ => k'.Settled) k p

end Fallback

open Fallback

section

variable {lower : Bytes → Bytes} {w : AuthWorld} {k : Fallback} {o : AuthOp} {α β : Type}
  {pick : Nat} {pg : PgStep} {username : Bytes}

theorem Fallback.Sound.done (a : α) : Sound (.done a) := fun _ h => h

theorem Fallback.Sound.bind {p : AuthProg α} {f : α → AuthProg β} (hp : Sound p)
    (hf : ∀ a, Sound (f a)) : Sound (p >>= f) := fun k hk =>
  (hp k hk).bind fun k' a hk' => hf a k' hk'

/-- An operation that neither inserts an account nor writes into memory. -/
def AuthOp.Reads : AuthOp → Prop
  | .insert _ _ => False
  | o => ¬ o.WritesMemory

theorem Fallback.Sound.of_reads {next : AuthAns o → AuthProg α} (ho : o.Reads)
    (hnext : ∀ a, Sound (next a)) : Sound (.call o next) := by
  intro k hk
  cases o with
  | memFind pick username | memFindByEmail pick email =>
      refine ⟨trivial, fun found => hnext found _ fun hfailed => ?_⟩
      change (k.met || found.isSome) = true
      rw [hk hfailed, Bool.true_or]
  | insert pg u => exact ho.elim
  | memAdd u | memWrite change username | memBump username => exact (ho trivial).elim
  | _ => exact ⟨trivial, fun a => hnext a k hk⟩

theorem sound_inEither {inMemory inDatabase : AuthProg α}
    (hm : ∀ k : Fallback, k.met = true → protocol.Follows (fun k' _ => k'.Settled) k inMemory)
    (hd : Sound inDatabase) : Sound (inEither pick username inMemory inDatabase) := by
  intro k hk
  refine ⟨trivial, fun found => ?_⟩
  cases found with
  | none =>
      refine hd _ fun hfailed => ?_
      change (k.met || false) = true
      rw [hk hfailed, Bool.true_or]
  | some f => exact hm _ (Bool.or_true k.met)

/-! #### The functions of the store -/

theorem sound_findRegisteredUser : Sound (findRegisteredUser pick pg username) := by
  refine .of_reads id fun found => ?_
  cases found with
  | none => exact .of_reads id .done
  | some f => exact .done _

theorem sound_findRegisteredUserByEmail {email : Bytes} :
    Sound (findRegisteredUserByEmail pick pg email) := by
  refine .of_reads id fun found => ?_
  cases found with
  | none => exact .of_reads id .done
  | some f => exact .done _

/-- A write by username goes into memory only if somebody has been found there. -/
theorem sound_write {change : Write} :
    Sound (inEither pick username (AuthOp.ask (.memWrite change username))
      (AuthOp.ask (.write pg change username))) :=
  sound_inEither (fun _ hmet => ⟨hmet, fun _ _ => hmet⟩) (.of_reads id .done)

theorem sound_bumpOtpAttempts : Sound (bumpOtpAttempts pick pg username) :=
  sound_inEither (fun _ hmet => ⟨hmet, fun _ _ => hmet⟩) (.of_reads id .done)

theorem follows_memInsert {u : RegisteredUser}
    (hk : k.failed = true → k.met = true ∨ u.username ≠ [] ∧ u.passwordHash ≠ [])
    (hu : u.username ≠ [] → u.passwordHash ≠ [] → k.failed = true) :
    protocol.Follows (fun k' _ => k'.Settled) k (memInsert pick u) := by
  unfold memInsert
  split
  next hrefused =>
    intro hfailed
    rcases hk hfailed with hmet | ⟨hname, hhash⟩
    · exact hmet
    · exact absurd hrefused (not_or.mpr ⟨hname, hhash⟩)
  next haccepted =>
    have hfailed := hu (fun h => haccepted (Or.inl h)) fun h => haccepted (Or.inr h)
    refine ⟨trivial, fun named => ?_⟩
    cases named with
    | some f => exact fun _ => Bool.or_true k.met
    | none =>
        refine ⟨trivial, fun addressed => ?_⟩
        cases addressed with
        | some f => exact fun _ => Bool.or_true _
        | none => exact ⟨hfailed, fun _ h => by cases h⟩

theorem sound_insertRegisteredUser {u : RegisteredUser} :
    Sound (insertRegisteredUser pick pg u) := by
  intro k hk
  refine ⟨trivial, fun inserted => ?_⟩
  cases inserted with
  | true =>
      intro hfailed
      exact hk (by simpa [protocol, learn] using hfailed)
  | false =>
      refine follows_memInsert (fun hfailed => ?_) fun hname hhash => ?_
      · by_cases hmet : k.failed = true
        · exact Or.inl (hk hmet)
        · right
          simpa [protocol, learn, hmet] using hfailed
      · simp [protocol, learn, hname, hhash]

/-! #### The requests -/

theorem sound_issueOtp {env : OtpEnv} {eligible : RegisteredUser → Bool} :
    Sound (issueOtp env username eligible) := by
  refine .of_reads id fun now => sound_findRegisteredUser.bind fun found => ?_
  cases found with
  | none => exact .done _
  | some f =>
      dsimp only
      split
      · exact sound_write.bind fun _ => .done _
      · exact .done _

theorem sound_wrong {env : OtpEnv} {tooMany wrong : α} : Sound (do
    let attempts ← bumpOtpAttempts env.pick env.count username
    if kMaxOtpAttempts ≤ attempts then
      let _ ← updateUserOtp env.pick env.write username [] 0
      return tooMany
    return wrong) := by
  refine sound_bumpOtpAttempts.bind fun attempts => ?_
  split
  · exact sound_write.bind fun _ => .done _
  · exact .done _

theorem sound_checkOtp {env : OtpEnv} {code : Bytes} {c : OtpCheck} (hexpired : Sound c.onExpired)
    (hright : Sound c.onRight) : Sound (checkOtp env username code c) := by
  simp only [checkOtp, AuthOp.ask, Prog.op_bind]
  refine sound_findRegisteredUser.bind fun found => ?_
  cases found with
  | none => exact .done _
  | some f =>
      dsimp only
      split
      · exact .done _
      refine .of_reads id fun now => ?_
      split
      · exact hexpired.bind fun _ => .done _
      refine .of_reads id fun _ => ?_
      split
      · exact hright.bind fun _ => .done _
      · exact sound_wrong

theorem sound_verifyByMessage {env : OtpEnv} {sender code : Bytes} :
    Sound (verifyByMessage env sender username code) := by
  simp only [verifyByMessage, AuthOp.ask, Prog.op_bind]
  refine .of_reads id fun found => ?_
  cases found with
  | none => exact .done _
  | some f =>
      dsimp only
      split
      · exact .done _
      refine .of_reads id fun now => ?_
      split
      · exact sound_write.bind fun _ => .done _
      refine .of_reads id fun _ => ?_
      split
      · exact sound_wrong
      split
      · exact .done _
      exact .of_reads id fun ok => .done _

theorem sound_registerAccount {env : OtpEnv} {r : Registration} :
    Sound (registerAccount env r) := by
  refine sound_findRegisteredUser.bind fun named => ?_
  cases named with
  | some f => exact .done _
  | none =>
      refine sound_findRegisteredUserByEmail.bind fun addressed => ?_
      cases addressed with
      | some f => exact .done _
      | none =>
          refine .of_reads id fun now => sound_insertRegisteredUser.bind fun inserted => ?_
          cases inserted with
          | false => exact .done _
          | true =>
              simp only [Bool.not_true, Bool.false_eq_true, ↓reduceIte]
              split
              · exact sound_write.bind fun _ => .done _
              · exact .done _

theorem sound_userToggleStatus {x : AdminAction} : Sound (userToggleStatus x) := by
  simp only [userToggleStatus, AuthOp.ask, Prog.op_bind]
  split
  · exact .done _
  refine .of_reads id fun found => ?_
  cases found with
  | none => exact .done _
  | some u =>
      dsimp only
      split
      · exact .done _
      split
      · exact .done _
      exact .of_reads id fun ok => .done _

theorem sound_userVerify {x : AdminAction} : Sound (userVerify x) := by
  simp only [userVerify, AuthOp.ask, Prog.op_bind]
  split
  · exact .done _
  refine .of_reads id fun found => ?_
  cases found with
  | none => exact .done _
  | some u =>
      dsimp only
      split
      · exact .done _
      exact .of_reads id fun ok => .done _

theorem sound_program (request : OtpRequest) : Sound request.program := by
  cases request with
  | confirm env req =>
      refine Sound.bind ?_ fun _ => .done _
      unfold registerConfirmHandler
      dsimp only
      split
      · exact .done _
      split
      · exact .done _
      exact sound_checkOtp sound_write sound_write
  | reset env req =>
      refine Sound.bind ?_ fun _ => .done _
      unfold resetPasswordHandler
      dsimp only
      split
      · exact .done _
      split
      · exact .done _
      split
      · exact .done _
      exact sound_checkOtp sound_write sound_write
  | webhook env req =>
      refine Sound.bind ?_ fun _ => .done _
      unfold webhook
      dsimp only
      iterate 6
        split
        · exact .done _
      exact sound_verifyByMessage
  | resend env req =>
      refine Sound.bind ?_ fun _ => .done _
      unfold resendOtp
      dsimp only
      split
      · exact .done _
      split
      · exact .done _
      exact sound_issueOtp.bind fun _ => .done _
  | forgot env req =>
      refine Sound.bind ?_ fun _ => .done _
      unfold forgotPasswordHandler
      dsimp only
      iterate 4
        split
        · exact .done _
      exact sound_issueOtp.bind fun _ => .done _
  | register env r => exact sound_registerAccount.bind fun _ => .done _
  | toggleStatus x => exact sound_userToggleStatus.bind fun _ => .done _
  | verify x => exact sound_userVerify.bind fun _ => .done _
  | wait seconds => exact .of_reads id fun _ => .done _

/-! ### One operation -/

theorem memMatch_of_empty {p : Bytes × RegisteredUser → Bool} (hw : w.users = OrderedMap.empty) :
    w.memMatch pick p = none := by
  refine memMatch_eq_none.mpr fun key u hfind => ?_
  rw [hw] at hfind
  cases hfind

/-- As long as nobody is in memory, no lookup finds anybody there. -/
theorem met_learn (hw : w.users = OrderedMap.empty) :
    (k.learn o (o.perform lower w).1).met = k.met := by
  cases o with
  | memFind pick username | memFindByEmail pick email =>
      change (k.met || Option.isSome (w.memMatch pick _)) = k.met
      rw [memMatch_of_empty hw, Option.isSome_none, Bool.or_false]
  | _ => rfl

theorem perform_insert {u : RegisteredUser} :
    ((AuthOp.insert pg u).perform lower w).1 = true ↔ RowInserted lower pg u w := by
  simp only [AuthOp.perform, RowInserted]
  split
  next hruns =>
    rw [and_iff_right hruns]
    unfold AuthWorld.insertRow
    cases hfind : w.rows.find? (lower u.username) <;> simp
  next hdown => exact iff_of_false Bool.false_ne_true fun h => hdown h.1

/-- An `INSERT` is known to have failed exactly if its account, which `mem_insert` would take, has
not got its row. -/
theorem failed_insert {u : RegisteredUser} :
    (k.learn (.insert pg u) ((AuthOp.insert pg u).perform lower w).1).failed = true ↔
      k.failed = true ∨ ¬ (AuthOp.insert pg u).Inserts lower w := by
  have hfailed : (k.learn (.insert pg u) ((AuthOp.insert pg u).perform lower w).1).failed = true ↔
      k.failed = true ∨ ¬ ((AuthOp.insert pg u).perform lower w).1 = true ∧
        u.username ≠ [] ∧ u.passwordHash ≠ [] := by
    simp [learn, and_assoc]
  rw [hfailed, perform_insert]
  unfold AuthOp.Inserts
  tauto

/-- What a request has learned of its `INSERT` it keeps until it adds to the map. -/
theorem failed_learn (hadd : ∀ u, o ≠ .memAdd u) :
    (k.learn o (o.perform lower w).1).failed = true ↔ k.failed = true ∨ ¬ o.Inserts lower w := by
  cases o with
  | insert pg u => exact failed_insert
  | memAdd u => exact absurd rfl (hadd u)
  | _ => exact (or_iff_left (not_not_intro trivial)).symm

/-! ### Runs -/

def knowledge (t : OtpJob) : Fallback := protocol.knows t.history

/-- No request has found anybody in memory. -/
def NobodyMet (s : OtpJobs) : Prop := ∀ t ∈ s.threads, (knowledge t).met = false

/-- Every account that `mem_insert` would take has its row. -/
def NoneFailed (s : OtpJobs) : Prop := ∀ t ∈ s.threads, (knowledge t).failed = false

variable {s s' : OtpJobs} {a : Threads.Action OtpRequest}
  {actions : List (Threads.Action OtpRequest)}

theorem nobodyMet_step (hempty : s.world.users = OrderedMap.empty) (h : NobodyMet s)
    (hstep : (otpRequests lower w).step? s a = some s') : NobodyMet s' := by
  intro t ht
  cases a with
  | arrive request =>
      cases hstep
      rcases List.mem_append.mp ht with ht | ht
      · exact h t ht
      · rw [List.mem_singleton.mp ht]
        rfl
  | step i =>
      obtain ⟨u, o, next, hu, hprogram, rfl⟩ := Job.step?_step hstep
      rcases Threads.mem_set_cases ht with rfl | ⟨j, -, hj⟩
      · change (protocol.knows (u.history ++ [⟨o, _⟩])).met = false
        rw [Protocol.knows_append]
        exact (met_learn hempty).trans (h u (List.mem_of_getElem? hu))
      · exact h t (List.mem_of_getElem? hj)

theorem knows_nothing {t : OtpJob} (hmet : NobodyMet s) (hfailed : NoneFailed s)
    (ht : t ∈ s.threads) : knowledge t = {} := by
  have hm := hmet t ht
  have hf := hfailed t ht
  cases hk : knowledge t with
  | mk met failed =>
      rw [hk] at hm hf
      cases hm
      cases hf
      rfl

/-- Who knows nothing does not write into memory. -/
theorem not_writesMemory_of_reachable
    {guard : OtpJobs → Threads.Action OtpRequest → Prop}
    (hs : (otpRequests lower w).Reachable guard s) (hmet : NobodyMet s) (hfailed : NoneFailed s) :
    ∀ t ∈ s.threads, ∀ o ∈ t.program.op?, ¬ o.WritesMemory := by
  intro t ht o ho
  have hfollows := Job.follows_of_reachable
    (fun request => sound_program request {} fun hfailed => hfailed) hs t ht
  obtain ⟨next, hprogram⟩ := Prog.op?_eq_some ho
  rw [Job.Follows, hprogram] at hfollows
  have hallowed : Fallback.allowed (knowledge t) o := hfollows.1
  rw [knows_nothing hmet hfailed ht] at hallowed
  intro hwrites
  cases o with
  | memAdd u | memWrite change username | memBump username => cases hallowed
  | _ => exact hwrites

theorem not_memAdd {o : AuthOp} (ho : ¬ o.WritesMemory) (u : RegisteredUser) : o ≠ .memAdd u := by
  rintro rfl
  exact ho trivial

/-- After an operation of a job that does not write into memory, every account has its row exactly
if it had before and the operation adds a row. -/
theorem noneFailed_step_iff {i : Nat} {t : OtpJob} {next : AuthAns o → AuthProg OtpReply}
    (ht : s.threads[i]? = some t) (ho : ¬ o.WritesMemory) :
    NoneFailed ⟨(o.perform lower s.world).2,
        s.threads.set i (t.answered o next (o.perform lower s.world).1)⟩ ↔
      NoneFailed s ∧ o.Inserts lower s.world := by
  have hlearn : knowledge (t.answered o next (o.perform lower s.world).1) =
      (knowledge t).learn o (o.perform lower s.world).1 := Protocol.knows_append
  have hfailed := @failed_learn lower s.world (knowledge t) o (not_memAdd ho)
  constructor
  · intro h
    have hself := h _ (Threads.mem_set_self ht)
    rw [hlearn, ← Bool.not_eq_true, hfailed, not_or, not_not] at hself
    refine ⟨fun u hu => ?_, hself.2⟩
    rcases Threads.mem_set_of_mem ht hu with rfl | hu
    · exact Bool.eq_false_iff.mpr hself.1
    · exact h u hu
  · rintro ⟨h, hinserts⟩ u hu
    rcases Threads.mem_set_cases hu with rfl | ⟨j, -, hj⟩
    · have hbefore := Bool.eq_false_iff.mp (h t (List.mem_of_getElem? ht))
      rw [hlearn, ← Bool.not_eq_true, hfailed]
      exact not_or.mpr ⟨hbefore, not_not_intro hinserts⟩
    · exact h u (List.mem_of_getElem? hj)

/-- If every `INSERT` adds its row, everything stays in the database. -/
theorem inDatabase_along (hw : w.users = OrderedMap.empty)
    (hguarded : (otpRequests lower w).Guarded (Job.Performs (AuthOp.Inserts lower))
      (otpRequests lower w).initial actions) :
    (otpRequests lower w).Along InDatabase (otpRequests lower w).initial actions := by
  have hinv : (otpRequests lower w).Invariant (Job.Performs (AuthOp.Inserts lower)) fun s =>
      (otpRequests lower w).Reachable (Job.Performs (AuthOp.Inserts lower)) s ∧
        s.world.users = OrderedMap.empty ∧ NobodyMet s ∧ NoneFailed s := by
    refine System.invariant_reachable.using
      ⟨hw, fun t ht => absurd ht List.not_mem_nil, fun t ht => absurd ht List.not_mem_nil⟩ ?_
    rintro s s' a hreach ⟨hempty, hmet, hfailed⟩ hguard hstep
    have hmet' := nobodyMet_step hempty hmet hstep
    cases a with
    | arrive request =>
        cases hstep
        refine ⟨hempty, hmet', fun t ht => ?_⟩
        rcases List.mem_append.mp ht with ht | ht
        · exact hfailed t ht
        · rw [List.mem_singleton.mp ht]
          rfl
    | step i =>
        obtain ⟨t, o, next, ht, hprogram, rfl⟩ := Job.step?_step hstep
        have ho : ¬ o.WritesMemory :=
          not_writesMemory_of_reachable hreach hmet hfailed t (List.mem_of_getElem? ht) o
            (by rw [hprogram]; rfl)
        have hinserts := hguard o (Job.nextOp_of_call ht hprogram)
        exact ⟨(users_of_not_writesMemory ho).trans hempty, hmet',
          (noneFailed_step_iff ht ho).mpr ⟨hfailed, hinserts⟩⟩
  refine (hinv.along_of_guarded hguarded hinv.initial).mono ?_
  rintro s ⟨hreach, hempty, hmet, hfailed⟩
  exact ⟨hempty, not_writesMemory_of_reachable hreach hmet hfailed⟩

/-- If everything has stayed in the database until all requests are answered, every `INSERT` has
added its row. The induction is on the actions that are left: at the end nobody is in between. -/
theorem guarded_of_along {s : OtpJobs} (hreach : (otpRequests lower w).Reachable System.anyStep s)
    (hmet : NobodyMet s) (hrun : (otpRequests lower w).run? s actions = some s')
    (hdone : ∀ t ∈ s'.threads, ∃ reply, t.program = .done reply)
    (halong : (otpRequests lower w).Along InDatabase s actions) :
    NoneFailed s ∧
      (otpRequests lower w).Guarded (Job.Performs (AuthOp.Inserts lower)) s actions := by
  induction actions generalizing s with
  | nil =>
      cases hrun
      refine ⟨fun t ht => ?_, trivial⟩
      obtain ⟨reply, hreply⟩ := hdone t ht
      have hfollows := Job.follows_of_reachable
        (fun request => sound_program request {} fun hfailed => hfailed) hreach t ht
      rw [Job.Follows, hreply] at hfollows
      refine Bool.eq_false_iff.mpr fun hfailed => ?_
      have hmet' := hfollows hfailed
      rw [show (protocol.knows t.history).met = false from hmet t ht] at hmet'
      cases hmet'
  | cons a rest ih =>
      obtain ⟨mid, hstep, hrest⟩ := Option.bind_eq_some_iff.mp hrun
      obtain ⟨hdb, halong⟩ := halong
      obtain ⟨hfailed, hguarded⟩ := ih (.step hreach trivial hstep)
        (nobodyMet_step hdb.empty hmet hstep) hrest (halong mid hstep)
      have hlater : ∀ s' ∈ (otpRequests lower w).step? s a,
          (otpRequests lower w).Guarded (Job.Performs (AuthOp.Inserts lower)) s' rest := by
        intro s' hs'
        obtain rfl : mid = s' := Option.some.inj (hstep.symm.trans hs')
        exact hguarded
      cases a with
      | arrive request =>
          cases hstep
          exact ⟨fun t ht => hfailed t (List.mem_append_left _ ht), trivial, hlater⟩
      | step i =>
          obtain ⟨t, o, next, ht, hprogram, rfl⟩ := Job.step?_step hstep
          have ho : ¬ o.WritesMemory :=
            hdb.rows t (List.mem_of_getElem? ht) o (by rw [hprogram]; rfl)
          obtain ⟨hbefore, hinserts⟩ := (noneFailed_step_iff ht ho).mp hfailed
          refine ⟨hbefore, fun o' ho' => ?_, hlater⟩
          obtain rfl : o = o' :=
            Option.some.inj ((Job.nextOp_of_call ht hprogram).symm.trans ho')
          exact hinserts

/-! ### `insert_registered_user` alone -/

theorem memInsert_runOn {u : RegisteredUser} (hw : w.users = OrderedMap.empty) :
    ((memInsert pick u).runOn (AuthOp.perform lower) w).1 = true ↔
      u.username ≠ [] ∧ u.passwordHash ≠ [] := by
  unfold memInsert
  split
  next hrefused => exact iff_of_false Bool.false_ne_true fun h => hrefused.elim h.1 h.2
  next haccepted =>
    have hnamed : (AuthOp.memFind pick u.username).perform lower w = (none, w) :=
      Prod.ext (memMatch_of_empty hw) rfl
    have haddressed : (AuthOp.memFindByEmail pick u.email).perform lower w = (none, w) :=
      Prod.ext (memMatch_of_empty hw) rfl
    have hadd : ((AuthOp.memAdd u).perform lower w).1 = true := by
      have hfind : w.users.find? u.username = none := by
        rw [hw]
        rfl
      change (w.memAdd u).1 = true
      unfold AuthWorld.memAdd
      rw [hfind]
    refine iff_of_true ?_ (not_or.mp haccepted)
    simp only [AuthOp.ask, Prog.op_bind, Prog.runOn_call, hnamed, haddressed, Option.isSome_none,
      Bool.false_eq_true, if_false]
    exact hadd

theorem insertRegisteredUser_runOn {u : RegisteredUser} (hw : w.users = OrderedMap.empty) :
    ((insertRegisteredUser pick pg u).runOn (AuthOp.perform lower) w).1 = true ↔
      RowInserted lower pg u w ∨ u.username ≠ [] ∧ u.passwordHash ≠ [] := by
  have hempty : ((AuthOp.insert pg u).perform lower w).2.users = OrderedMap.empty :=
    (users_of_not_writesMemory id).trans hw
  rw [← perform_insert]
  unfold insertRegisteredUser
  simp only [AuthOp.ask, Prog.op_bind, Prog.runOn_call]
  cases hinserted : ((AuthOp.insert pg u).perform lower w).1 with
  | true => exact iff_of_true rfl (Or.inl rfl)
  | false =>
      rw [or_iff_right Bool.false_ne_true]
      exact memInsert_runOn hempty

/-- Requests with a database leave the accounts to it exactly if every `INSERT` adds its row, and
`insert_registered_user` answers for a row exactly if its own `INSERT` does. -/
theorem accounts_in_database_iff (lower : Bytes → Bytes) (w : AuthWorld)
    (hw : w.users = OrderedMap.empty) :
    (∀ actions, Answered lower w actions →
      ((otpRequests lower w).Along InDatabase (otpRequests lower w).initial actions ↔
        (otpRequests lower w).Guarded (Job.Performs (AuthOp.Inserts lower))
          (otpRequests lower w).initial actions)) ∧
      (∀ actions, (otpRequests lower w).Guarded (Job.Performs (AuthOp.Inserts lower))
          (otpRequests lower w).initial actions →
        (otpRequests lower w).Along InDatabase (otpRequests lower w).initial actions) ∧
      ∀ pick pg u w', w'.users = OrderedMap.empty →
        ((((insertRegisteredUser pick pg u).runOn (AuthOp.perform lower) w').1 = true →
            RowInserted lower pg u w') ↔ (AuthOp.insert pg u).Inserts lower w') := by
  refine ⟨fun actions hanswered => ⟨fun halong => ?_, inDatabase_along hw⟩,
    fun actions => inDatabase_along hw, fun pick pg u w' hw' => ?_⟩
  · obtain ⟨s, hrun, hdone⟩ := hanswered
    exact (guarded_of_along .initial (fun t ht => absurd ht List.not_mem_nil) hrun hdone halong).2
  · rw [insertRegisteredUser_runOn hw']
    unfold AuthOp.Inserts
    tauto

/-! ### A registration that the database does not take -/

/-- The pool is out of reach at the `INSERT`. -/
def registerUnreached : OtpRequest :=
  .register { write := { pool := { acquire := false, acquireAgain := false } } }
    ⟨str "budi", str "budi@a.id", str "hash", false, true⟩

def registerReached : OtpRequest :=
  .register {} ⟨str "budi", str "budi@a.id", str "hash", false, true⟩

theorem accounts_in_database_iff_budi :
    (otpRequests id {}).Along InDatabase (otpRequests id {}).initial
        (.arrive registerReached :: List.replicate 6 (.step 0)) ↔
      (otpRequests id {}).Guarded (Job.Performs (AuthOp.Inserts id)) (otpRequests id {}).initial
        (.arrive registerReached :: List.replicate 6 (.step 0)) :=
  (accounts_in_database_iff id {} rfl).1 _ ⟨_, rfl, by decide +kernel⟩

/-- The account is in memory, active, and answered as created. -/
theorem not_accounts_in_database : ¬ ∀ lower (w : AuthWorld) actions, w.users = OrderedMap.empty →
    (∀ request, .arrive request ∈ actions → request.configured = true) →
      (otpRequests lower w).Along InDatabase (otpRequests lower w).initial actions := by
  intro h
  have hrun := h id {} (.arrive registerUnreached :: List.replicate 9 (.step 0)) rfl ?_
  · have hlast := (hrun.after (by decide +kernel)).empty
    exact absurd hlast (by decide +kernel)
  · intro request hrequest
    obtain rfl : request = registerUnreached := by
      simpa using hrequest
    rfl

end

end ExamVan.Auth
