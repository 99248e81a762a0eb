import ExamVan.Auth.OtpWorld

/-!
# Five guesses

A wrong code is counted after it has been compared, for the account that the username of the request
leads to by then. The count bounds the comparisons as long as it finds the account that was read,
and as long as those who compare at once leave room for each other.
-/

namespace ExamVan.Auth

open ByteString Db

/-! ### Guesses under way -/

/-- Whose code is still to be compared. -/
def OtpStage.comparing : OtpStage → Option Found
  | .read f | .timed f _ => some f
  | _ => none

/-- Whose code has been compared with a wrong one. -/
def OtpStage.missed : OtpStage → Option Found
  | .wrong f | .counted f _ _ | .disabled f => some f
  | _ => none

/-- Whose wrong comparison is still to be counted. -/
def OtpStage.uncounted : OtpStage → Option Found
  | .wrong f => some f
  | _ => none

section

variable (lower : Bytes → Bytes) (otp : Otp) (a : Account) (t : OtpJob)

/-- The request goes on to compare a wrong code with the OTP. -/
def guessing : Bool :=
  t.program.op?.isSome && (stageAt lower t).comparing.any fun f =>
    f.otp = otp ∧ t.input.guess?.any fun g => ¬ g.Hits f

/-- The request has compared a wrong code with the OTP. -/
def guessed : Bool := (stageAt lower t).missed.any fun f => f.otp = otp

def uncounted : Bool := (stageAt lower t).uncounted.any fun f => f.otp = otp

/-- The request has counted the fifth wrong code for the account, and has not disabled the OTP. -/
def disabling : Bool :=
  match stageAt lower t with
  | .counted _ b n => b = a ∧ kMaxOtpAttempts ≤ n
  | _ => false

end

/-- The user of an account that has an OTP. -/
def AuthWorld.holder? (w : AuthWorld) (a : Account) : Option RegisteredUser :=
  (w.user? a).filter fun u => u.otpCode ≠ []

/-- No wrong code has been counted for an OTP. -/
def AuthWorld.Untried (w : AuthWorld) : Prop := ∀ a, ∀ u ∈ w.holder? a, u.otpAttempts = 0

section

variable (lower : Bytes → Bytes) (s : OtpJobs)

def OtpJobs.guessing (otp : Otp) : Nat := s.threads.countP (Auth.guessing lower otp)

def OtpJobs.guessed (otp : Otp) : Nat := s.threads.countP (Auth.guessed lower otp)

def OtpJobs.uncounted (otp : Otp) : Nat := s.threads.countP (Auth.uncounted lower otp)

def OtpJobs.disabling (a : Account) : Nat := s.threads.countP (Auth.disabling lower a)

/-- No OTP has been compared with more than five wrong codes while it was there. -/
def FiveGuesses : Prop :=
  ∀ a, (s.world.holder? a).isSome → s.guessed lower (s.world.otp a) ≤ 5

/-- The wrong codes under way have room below the limit, or none is under way. -/
def OtpJobs.HasRoom (a : Account) (u : RegisteredUser) : Prop :=
  let otp := s.world.otp a
  s.guessing lower otp + s.uncounted lower otp + s.disabling lower a = 0 ∨
    u.otpAttempts + (s.guessing lower otp + s.uncounted lower otp) < kMaxOtpAttempts

instance (a : Account) (u : RegisteredUser) : Decidable (s.HasRoom lower a u) :=
  inferInstanceAs (Decidable (_ ∨ _))

/-- A request that reads an OTP with a wrong code has room for it; it counts its attempt for the
account that it has read, if the OTP is still there; and after the fifth attempt it disables the OTP
of the account that it has counted for. -/
def GuessStep (request : OtpRequest) (o : AuthOp) : OtpStage → Prop
  | .start => ∀ f ∈ o.lookup lower s.world, f.user.otpCode ≠ [] → (∃ g ∈ request.guess?, ¬ g.Hits f) →
      s.HasRoom lower f.account f.user
  | .wrong f => o.isBump = true → f.otp = s.world.otp f.account →
      (s.world.holder? f.account).isSome → o.bumps lower s.world = some f.account
  | .counted _ a _ => o.isWrite = true → ∀ u ∈ s.world.holder? a, kMaxOtpAttempts ≤ u.otpAttempts →
      o.writes lower s.world = some a
  | _ => True

instance (request : OtpRequest) (o : AuthOp) : DecidablePred (GuessStep lower s request o)
  | .start => inferInstanceAs (Decidable (∀ f ∈ o.lookup lower s.world, _ → _ → _))
  | .wrong _ => inferInstanceAs (Decidable (_ → _ → _ → _))
  | .counted _ _ _ => inferInstanceAs (Decidable (_ → ∀ u ∈ _, _ → _))
  | .read _ | .timed _ _ | .right _ _ | .disabled _ => isTrue trivial

def Counting : Threads.Action OtpRequest → Prop
  | .arrive _ => True
  | .step i => ∀ t ∈ s.threads[i]?, ∀ o ∈ t.program.op?,
      GuessStep lower s t.input o (stageAt lower t)

instance : DecidablePred (Counting lower s)
  | .arrive _ => isTrue trivial
  | .step i => inferInstanceAs (Decidable (∀ t ∈ s.threads[i]?, ∀ o ∈ t.program.op?, _))

end

/-! ### What a step counts -/

section

variable {lower : Bytes → Bytes} {w w' : AuthWorld} {s s' : OtpJobs} {t t' : OtpJob} {o : AuthOp}
  {i : Nat} {otp : Otp} {a : Account} {u u' : RegisteredUser}

theorem holder?_eq_some : w.holder? a = some u ↔ w.user? a = some u ∧ u.otpCode ≠ [] := by
  simp [AuthWorld.holder?, Option.filter_eq_some_iff]

/-- A request whose code is right, or that has none, does not guess. -/
theorem guessing_eq_true : guessing lower otp t = true ↔ t.program.op?.isSome = true ∧
    ∃ f ∈ (stageAt lower t).comparing, f.otp = otp ∧ ∃ g ∈ t.input.guess?, ¬ g.Hits f := by
  simp [guessing, Option.any_eq_true]

theorem guessed_eq_true :
    guessed lower otp t = true ↔ ∃ f ∈ (stageAt lower t).missed, f.otp = otp := by
  simp [guessed, Option.any_eq_true]

theorem disabling_eq_true : disabling lower a t = true ↔
    ∃ f n, stageAt lower t = .counted f a n ∧ kMaxOtpAttempts ≤ n := by
  unfold disabling
  split
  next f b n hstage => simp [hstage]
  next hstage => simpa using fun f n hcounted => absurd hcounted (hstage f a n)

/-- An attempt is counted once, and the answer is its number. -/
theorem perform_of_bumps (h : o.bumps lower w = some a) : ∃ u, w.user? a = some u ∧
    (o.perform lower w).2.user? a = some u.bumped ∧ (o.perform lower w).2.issue a = w.issue a ∧
      ∀ f, (OtpStage.wrong f).learn lower o (o.perform lower w).1 =
        .counted f a (u.otpAttempts + 1) := by
  have hbump : ∀ {u : RegisteredUser}, w.user? a = some u → (w.bumpAt a).1 = u.otpAttempts + 1 ∧
      (w.bumpAt a).2.user? a = some u.bumped ∧ (w.bumpAt a).2.issue a = w.issue a := by
    intro u hu
    simp [AuthWorld.bumpAt, hu]
  cases o with
  | memBump username =>
      obtain ⟨u, hu, rfl⟩ := Option.map_eq_some_iff.mp h
      obtain ⟨hanswer, huser, hissue⟩ := hbump hu
      exact ⟨u, hu, huser, hissue, fun f => congrArg (OtpStage.counted f _) hanswer⟩
  | bump pg username =>
      simp only [AuthOp.bumps, AuthWorld.rowOf] at h
      split at h
      next hruns =>
        obtain ⟨u, hu, rfl⟩ := Option.map_eq_some_iff.mp h
        obtain ⟨hanswer, huser, hissue⟩ := hbump hu
        rw [AuthOp.perform, if_pos hruns]
        exact ⟨u, hu, huser, hissue, fun f => congrArg (OtpStage.counted f _) hanswer⟩
      next => cases h
  | _ => cases h

/-- A request that disables the OTP of an account leaves it without one. -/
theorem holder?_of_writes {f : Found} {b : Account} {n : Int}
    (hallowed : (t.input.protocol lower).allowed (.counted f b n) o)
    (h : o.writes lower w = some a) : (o.perform lower w).2.holder? a = none := by
  have hnone : ∀ expiry, ((w.modify (Write.otp [] expiry).on a).reissue a).holder? a = none := by
    intro expiry
    cases hu : w.user? a <;> simp [AuthWorld.holder?, hu, Write.on]
  cases o with
  | memWrite change username =>
      obtain ⟨expiry', rfl⟩ := hallowed.2 f b n rfl
      obtain ⟨u, -, rfl⟩ := Option.map_eq_some_iff.mp h
      exact hnone _
  | write pg change username =>
      obtain ⟨expiry', rfl⟩ := hallowed.2 f b n rfl
      simp only [AuthOp.writes, AuthWorld.rowOf] at h
      split at h
      next hruns =>
        obtain ⟨u, -, rfl⟩ := Option.map_eq_some_iff.mp h
        rw [AuthOp.perform, if_pos hruns]
        exact hnone _
      next => cases h
  | _ => cases h

theorem found?_of_comparing {stage : OtpStage} {f : Found} (h : f ∈ stage.comparing) :
    f ∈ stage.found? := by
  cases stage <;> first | exact h | cases h

theorem found?_of_missed {stage : OtpStage} {f : Found} (h : f ∈ stage.missed) :
    f ∈ stage.found? := by
  cases stage <;> first | exact h | cases h

/-! ### The invariant -/

/-- What is known of an OTP that is there: the wrong codes are counted but for those still to be
counted; they leave room for the guesses under way; and the one who counts the fifth disables it. -/
structure Bounded (lower : Bytes → Bytes) (s : OtpJobs) (a : Account) (u : RegisteredUser) :
    Prop where
  counted : (s.guessed lower (s.world.otp a) : Int) ≤
    u.otpAttempts + s.uncounted lower (s.world.otp a)
  room : s.guessed lower (s.world.otp a) + s.guessing lower (s.world.otp a) ≤ 5
  watched : kMaxOtpAttempts ≤ u.otpAttempts → ∃ t ∈ s.threads, disabling lower a t = true

/-- A step after which the OTP is still there. -/
theorem bounded_of_kept (h : Bounded lower s a u) (ht : s.threads[i]? = some t)
    (hissue : w'.issue a = s.world.issue a)
    (hcounted : ((guessed lower (s.world.otp a) t').toNat : Int) +
        (uncounted lower (s.world.otp a) t).toNat + u.otpAttempts ≤
      (guessed lower (s.world.otp a) t).toNat + (uncounted lower (s.world.otp a) t').toNat +
        u'.otpAttempts)
    (hroom : s.guessed lower (s.world.otp a) + s.guessing lower (s.world.otp a) +
        ((guessed lower (s.world.otp a) t').toNat + (guessing lower (s.world.otp a) t').toNat) ≤
      5 + ((guessed lower (s.world.otp a) t).toNat + (guessing lower (s.world.otp a) t).toNat))
    (hwatched : kMaxOtpAttempts ≤ u'.otpAttempts →
      ∃ t ∈ s.threads.set i t', disabling lower a t = true) :
    Bounded lower ⟨w', s.threads.set i t'⟩ a u' := by
  have hotp : w'.otp a = s.world.otp a := congrArg (Prod.mk a) hissue
  have hguessed := Threads.countP_set_add t' (guessed lower (s.world.otp a)) ht
  have hguessing := Threads.countP_set_add t' (guessing lower (s.world.otp a)) ht
  have huncounted := Threads.countP_set_add t' (uncounted lower (s.world.otp a)) ht
  have hbefore := h.counted
  refine ⟨?_, ?_, hwatched⟩
  · simp only [OtpJobs.guessed, OtpJobs.uncounted, hotp] at hbefore ⊢
    omega
  · simp only [OtpJobs.guessed, OtpJobs.guessing, hotp] at hroom ⊢
    omega

/-- An OTP that has just been written. -/
theorem bounded_of_fresh (hfresh : ∀ t ∈ s.threads, ∀ f ∈ (stageAt lower t).found?,
    f.account = a → f.issue < s.world.issue a) (hu : u.otpAttempts = 0) : Bounded lower s a u := by
  have hnone : ∀ {p : OtpJob → Bool}, (∀ t, p t = true → ∃ f ∈ (stageAt lower t).found?,
      f.otp = s.world.otp a) → s.threads.countP p = 0 := by
    intro p hp
    refine List.countP_eq_zero.mpr fun t ht hpt => ?_
    obtain ⟨f, hf, hotp⟩ := hp t hpt
    obtain ⟨haccount, hissue⟩ := Prod.mk.inj hotp
    exact absurd hissue (hfresh t ht f hf haccount).ne
  have hguessed : s.guessed lower (s.world.otp a) = 0 := hnone fun t ht => by
    obtain ⟨f, hf, hotp⟩ := guessed_eq_true.mp ht
    exact ⟨f, found?_of_missed hf, hotp⟩
  have hguessing : s.guessing lower (s.world.otp a) = 0 := hnone fun t ht => by
    obtain ⟨-, f, hf, hotp, -⟩ := guessing_eq_true.mp ht
    exact ⟨f, found?_of_comparing hf, hotp⟩
  refine ⟨?_, ?_, fun hmany => ?_⟩
  · omega
  · omega
  · rw [hu] at hmany
    exact absurd hmany (by decide)

/-- A request that still has to disable the OTP goes on so while the OTP is there. -/
theorem disabling_of_move (hu : s.world.holder? a = some u) (hmany : kMaxOtpAttempts ≤ u.otpAttempts)
    (hallowed : (t.input.protocol lower).allowed (stageAt lower t) o)
    (hmove : OtpMove lower s.world t.input o (stageAt lower t) (stageAt lower t'))
    (hguard : GuessStep lower s t.input o (stageAt lower t))
    (hafter : (o.perform lower s.world).2.holder? a = some u') (h : disabling lower a t = true) :
    disabling lower a t' = true := by
  obtain ⟨f, n, hstage, hn⟩ := disabling_eq_true.mp h
  rw [hstage] at hallowed hmove hguard
  generalize hstage' : stageAt lower t' = stage' at hmove
  cases hmove with
  | idle => exact disabling_eq_true.mpr ⟨f, n, hstage', hn⟩
  | disabled f a n hwrite =>
      have hnone := holder?_of_writes hallowed (hguard hwrite u hu hmany)
      rw [hafter] at hnone
      cases hnone

/-- A guess that has room may be wrong. -/
theorem lt_of_hasRoom (h : Bounded lower s a u) (hroom : s.HasRoom lower a u) :
    s.guessed lower (s.world.otp a) + s.guessing lower (s.world.otp a) < 5 := by
  have hcounted := h.counted
  have hlimit : kMaxOtpAttempts = 5 := rfl
  rcases hroom with hnone | hfew
  · have hfew : u.otpAttempts < kMaxOtpAttempts := by
      by_contra hmany
      obtain ⟨t, ht, hdisabling⟩ := h.watched (not_lt.mp hmany)
      have hpos : 0 < s.disabling lower a := List.countP_pos_iff.mpr ⟨t, ht, hdisabling⟩
      omega
    omega
  · omega

/-- A step that counts no attempt for the account, and leaves its OTP. -/
theorem bounded_of_move (h : Bounded lower s a u) (hu : s.world.holder? a = some u)
    (ht : s.threads[i]? = some t) (hop : t.program.op? = some o) (hinput : t'.input = t.input)
    (hallowed : (t.input.protocol lower).allowed (stageAt lower t) o)
    (hmove : OtpMove lower s.world t.input o (stageAt lower t) (stageAt lower t'))
    (hguard : GuessStep lower s t.input o (stageAt lower t))
    (hissue : (o.perform lower s.world).2.issue a = s.world.issue a)
    (hafter : (o.perform lower s.world).2.holder? a = some u')
    (hattempts : u'.otpAttempts = u.otpAttempts) (hbumps : o.bumps lower s.world ≠ some a) :
    Bounded lower ⟨(o.perform lower s.world).2, s.threads.set i t'⟩ a u' := by
  have hroom := h.room
  have hwatched : kMaxOtpAttempts ≤ u'.otpAttempts →
      ∃ t ∈ s.threads.set i t', disabling lower a t = true := by
    intro hmany
    rw [hattempts] at hmany
    obtain ⟨t₀, ht₀, hdisabling⟩ := h.watched hmany
    have hcases : t₀ = t ∨ t₀ ∈ s.threads.set i t' := Threads.mem_set_of_mem ht ht₀
    obtain rfl | hmem := hcases
    · have hstays := disabling_of_move hu hmany hallowed hmove hguard hafter hdisabling
      exact ⟨t', Threads.mem_set_self ht, hstays⟩
    · exact ⟨t₀, hmem, hdisabling⟩
  have hrunning : t.program.op?.isSome = true := by rw [hop]; rfl
  generalize hstage : stageAt lower t = stage at hmove hguard
  generalize hstage' : stageAt lower t' = stage' at hmove
  -- most moves leave what counts
  have halike : (∀ f ∈ stage'.comparing, f ∈ stage.comparing) → stage'.missed = stage.missed →
      stage'.uncounted = stage.uncounted →
        Bounded lower ⟨(o.perform lower s.world).2, s.threads.set i t'⟩ a u' := by
    intro hcomparing hmissed huncounted
    have hguessed : guessed lower (s.world.otp a) t' = guessed lower (s.world.otp a) t := by
      rw [guessed, guessed, hstage, hstage', hmissed]
    have huncounted' : uncounted lower (s.world.otp a) t' = uncounted lower (s.world.otp a) t := by
      rw [uncounted, uncounted, hstage, hstage', huncounted]
    have hguessing : (guessing lower (s.world.otp a) t').toNat ≤
        (guessing lower (s.world.otp a) t).toNat := by
      refine Bool.toNat_le_toNat (Bool.le_iff_imp.mpr fun hguessing => ?_)
      obtain ⟨-, f, hf, hrest⟩ := guessing_eq_true.mp hguessing
      rw [hinput] at hrest
      rw [hstage'] at hf
      exact guessing_eq_true.mpr ⟨hrunning, f, hstage ▸ hcomparing f hf, hrest⟩
    refine bounded_of_kept h ht hissue ?_ ?_ hwatched
    · rw [hguessed, huncounted', hattempts]
    · rw [hguessed]
      omega
  cases hmove with
  | idle => exact halike (fun f hf => hf) rfl rfl
  | timed f now => exact halike (fun f hf => hf) rfl rfl
  | right g f now => exact halike (fun f hf => by cases hf) rfl rfl
  | disabled f b n => exact halike (fun f hf => hf) rfl rfl
  | looked f hlookup =>
      have hread := readIn_of_lookup hlookup
      have hbefore : guessed lower (s.world.otp a) t = false ∧
          uncounted lower (s.world.otp a) t = false ∧ guessing lower (s.world.otp a) t = false := by
        simp [guessed, uncounted, guessing, hstage, OtpStage.missed, OtpStage.uncounted,
          OtpStage.comparing]
      have hmissed : guessed lower (s.world.otp a) t' = false ∧
          uncounted lower (s.world.otp a) t' = false := by
        simp [guessed, uncounted, hstage', OtpStage.missed, OtpStage.uncounted]
      refine bounded_of_kept h ht hissue ?_ ?_ hwatched
      · rw [hbefore.1, hbefore.2.1, hmissed.1, hmissed.2, hattempts]
      · rw [hbefore.1, hbefore.2.2, hmissed.1]
        cases hguessing : guessing lower (s.world.otp a) t' with
        | false => simpa using hroom
        | true =>
            obtain ⟨-, f', hf', hotp, hmiss⟩ := guessing_eq_true.mp hguessing
            rw [hstage', OtpStage.comparing, Option.mem_some_iff] at hf'
            subst hf'
            obtain ⟨haccount, -⟩ := Prod.mk.inj hotp
            obtain ⟨huser, hcode⟩ := holder?_eq_some.mp hu
            have hsame : f.user = u := by
              have hstored := hread.user
              rw [haccount, huser] at hstored
              exact (Option.some.inj hstored).symm
            rw [hinput] at hmiss
            have hroomFor := hguard f hlookup (hsame ▸ hcode) hmiss
            rw [haccount, hsame] at hroomFor
            have hlt := lt_of_hasRoom h hroomFor
            simp only [Bool.toNat_false, Bool.toNat_true]
            omega
  | wrong g f now hguess hmiss =>
      have hbefore : guessed lower (s.world.otp a) t = false ∧
          uncounted lower (s.world.otp a) t = false := by
        simp [guessed, uncounted, hstage, OtpStage.missed, OtpStage.uncounted]
      have hafter : uncounted lower (s.world.otp a) t' = guessed lower (s.world.otp a) t' ∧
          guessing lower (s.world.otp a) t' = false := by
        simp [guessed, uncounted, guessing, hstage', OtpStage.missed, OtpStage.uncounted,
          OtpStage.comparing]
      have hguessed : (guessed lower (s.world.otp a) t').toNat ≤
          (guessing lower (s.world.otp a) t).toNat := by
        refine Bool.toNat_le_toNat (Bool.le_iff_imp.mpr fun hguessed => ?_)
        obtain ⟨f', hf', hotp⟩ := guessed_eq_true.mp hguessed
        rw [hstage', OtpStage.missed, Option.mem_some_iff] at hf'
        subst hf'
        exact guessing_eq_true.mpr ⟨hrunning, f, hstage ▸ rfl, hotp, g, hguess, hmiss⟩
      refine bounded_of_kept h ht hissue ?_ ?_ hwatched
      · rw [hbefore.1, hbefore.2, hafter.1, hattempts]
        simp
      · rw [hbefore.1, hafter.2]
        simp only [Bool.toNat_false]
        omega
  | counted f b n hbump =>
      have helsewhere : ¬ f.otp = s.world.otp a := by
        intro hotp
        obtain ⟨rfl, -⟩ := Prod.mk.inj hotp
        exact hbumps (hguard hbump hotp (by rw [hu]; rfl))
      have hbefore : guessed lower (s.world.otp a) t = false ∧
          uncounted lower (s.world.otp a) t = false := by
        simp [guessed, uncounted, hstage, OtpStage.missed, OtpStage.uncounted, helsewhere]
      have hafter : guessed lower (s.world.otp a) t' = false ∧
          guessing lower (s.world.otp a) t' = false := by
        simp [guessed, guessing, hstage', OtpStage.missed, OtpStage.comparing, helsewhere]
      refine bounded_of_kept h ht hissue ?_ ?_ hwatched
      · rw [hbefore.1, hbefore.2, hafter.1, hattempts]
        simp
      · rw [hafter.1, hafter.2]
        simp only [Bool.toNat_false]
        omega

/-- A step that counts an attempt for the account. -/
theorem bounded_of_bumped (h : Bounded lower s a u) (hu : s.world.holder? a = some u)
    (ht : s.threads[i]? = some t)
    (hallowed : (t.input.protocol lower).allowed (stageAt lower t) o)
    (hlearn : stageAt lower t' = (stageAt lower t).learn lower o (o.perform lower s.world).1)
    (hbumps : o.bumps lower s.world = some a)
    (hafter : (o.perform lower s.world).2.holder? a = some u') :
    Bounded lower ⟨(o.perform lower s.world).2, s.threads.set i t'⟩ a u' := by
  obtain ⟨v, hv, hbumped, hissue, hcounted⟩ := perform_of_bumps hbumps
  obtain ⟨huser, -⟩ := holder?_eq_some.mp hu
  obtain ⟨huser', -⟩ := holder?_eq_some.mp hafter
  obtain rfl := Option.some.inj (huser.symm.trans hv)
  obtain rfl := Option.some.inj (hbumped.symm.trans huser')
  obtain ⟨f, hstage⟩ : ∃ f, stageAt lower t = .wrong f := by
    cases o with
    | memBump username | bump pg username =>
        obtain ⟨g, f, -, hstage, -⟩ := hallowed
        exact ⟨f, hstage⟩
    | _ => cases hbumps
  have hstage' : stageAt lower t' = .counted f a (u.otpAttempts + 1) := by
    rw [hlearn, hstage, hcounted]
  have hguessed : guessed lower (s.world.otp a) t' = guessed lower (s.world.otp a) t := by
    rw [guessed, guessed, hstage, hstage']
    rfl
  have huncounted : uncounted lower (s.world.otp a) t' = false := by
    simp [uncounted, hstage', OtpStage.uncounted]
  have hguessing : guessing lower (s.world.otp a) t' = false := by
    simp [guessing, hstage', OtpStage.comparing]
  have hroom := h.room
  refine bounded_of_kept h ht hissue ?_ ?_ fun hmany => ?_
  · have hone := Bool.toNat_le (uncounted lower (s.world.otp a) t)
    rw [hguessed, huncounted]
    simp only [RegisteredUser.bumped, Bool.toNat_false]
    omega
  · rw [hguessed, hguessing]
    simp only [Bool.toNat_false]
    omega
  · exact ⟨t', Threads.mem_set_self ht, disabling_eq_true.mpr ⟨f, _, hstage', hmany⟩⟩

/-! ### Runs -/

/-- A request that has just come has read nobody. -/
theorem bounded_of_arrived {request : OtpRequest} (h : Bounded lower s a u) :
    Bounded lower ⟨s.world, s.threads ++ [Job.start OtpRequest.program request]⟩ a u := by
  have hstart : stageAt lower (Job.start OtpRequest.program request) = .start := rfl
  have hcount : ∀ {p : OtpJob → Bool}, p (Job.start OtpRequest.program request) = false →
      (s.threads ++ [Job.start OtpRequest.program request]).countP p = s.threads.countP p := by
    intro p hp
    simp [List.countP_append, hp]
  have hguessed := @hcount (guessed lower (s.world.otp a))
    (by simp [guessed, hstart, OtpStage.missed])
  have hguessing := @hcount (guessing lower (s.world.otp a))
    (by simp [guessing, hstart, OtpStage.comparing])
  have huncounted := @hcount (uncounted lower (s.world.otp a))
    (by simp [uncounted, hstart, OtpStage.uncounted])
  refine ⟨?_, ?_, fun hmany => ?_⟩
  · rw [OtpJobs.guessed, OtpJobs.uncounted, hguessed, huncounted]
    exact h.counted
  · rw [OtpJobs.guessed, OtpJobs.guessing, hguessed, hguessing]
    exact h.room
  · obtain ⟨t, ht, hdisabling⟩ := h.watched hmany
    exact ⟨t, List.mem_append_left _ ht, hdisabling⟩

theorem bounded_step {action : Threads.Action OtpRequest}
    (h : ∀ a, ∀ u ∈ s.world.holder? a, Bounded lower s a u)
    (horderly : ∀ t ∈ s.threads, Orderly lower t)
    (hdated : ∀ t ∈ s.threads, ∀ f ∈ (stageAt lower t).found?, f.Dated s.world)
    (hguard : Counting lower s action) (hstep : (otpRequests lower w).step? s action = some s') :
    ∀ a, ∀ u ∈ s'.world.holder? a, Bounded lower s' a u := by
  intro a u' hu'
  rw [Option.mem_def] at hu'
  cases action with
  | arrive request =>
      cases hstep
      exact bounded_of_arrived (h a u' hu')
  | step i =>
      obtain ⟨t, t', o, ht, hop, hinput, rfl, hallowed, hmove, hlearn⟩ := orderly_step horderly hstep
      have hguardStep := hguard t ht o hop
      by_cases hbumps : o.bumps lower s.world = some a
      · obtain ⟨u, hu, hbumped, -, -⟩ := perform_of_bumps hbumps
        have hholder : s.world.holder? a = some u := by
          obtain ⟨huser', hcode'⟩ := holder?_eq_some.mp hu'
          obtain rfl := Option.some.inj (hbumped.symm.trans huser')
          exact holder?_eq_some.mpr ⟨hu, hcode'⟩
        exact bounded_of_bumped (h a u hholder) hholder ht hallowed hlearn hbumps hu'
      have hkept : ∀ u, s.world.holder? a = some u → u'.otpAttempts = u.otpAttempts →
          (o.perform lower s.world).2.issue a = s.world.issue a →
            Bounded lower ⟨(o.perform lower s.world).2, s.threads.set i t'⟩ a u' :=
        fun u hu hattempts hissue => bounded_of_move (h a u hu) hu ht hop hinput hallowed hmove
          hguardStep hissue hu' hattempts hbumps
      have hchange : AccountChange lower o s.world (o.perform lower s.world).2 a :=
        change_of_allowed hallowed
      obtain ⟨huser', hcode'⟩ := holder?_eq_some.mp hu'
      cases hchange with
      | same huser hissue =>
          exact hkept u' (holder?_eq_some.mpr ⟨huser ▸ huser', hcode'⟩) rfl hissue
      | bumped u hop hbefore hafter hissue => exact absurd hop hbumps
      | status u status hbefore hafter hissue =>
          obtain rfl := Option.some.inj (hafter.symm.trans huser')
          exact hkept u (holder?_eq_some.mpr ⟨hbefore, hcode'⟩) rfl hissue
      | rewritten hissue huser =>
          have huntried : u'.otpAttempts = 0 := (huser u' huser').resolve_left hcode'
          refine bounded_of_fresh (fun v hv f hf haccount => ?_) huntried
          have hle : f.issue ≤ s.world.issue f.account := by
            obtain rfl | ⟨j, -, hj⟩ := Threads.mem_set_cases hv
            · rcases hmove.found hf with hold | hread
              · exact (hdated t (List.mem_of_getElem? ht) f hold).issue
              · exact hread.issue.le
            · exact (hdated v (List.mem_of_getElem? hj) f hf).issue
          rw [haccount] at hle
          dsimp only
          omega

/-- As long as the wrong codes under way have room, and are counted for the account that they have
been compared for, no OTP is compared with more than five of them while it is there. -/
theorem fiveGuesses_of_reachable (hw : w.Untried)
    (hs : (otpRequests lower w).Reachable (Counting lower) s) : FiveGuesses lower s := by
  have hbounded : ∀ a, ∀ u ∈ s.world.holder? a, Bounded lower s a u := by
    induction hs with
    | initial => exact fun a u hu => bounded_of_fresh (fun t ht => absurd ht List.not_mem_nil) (hw a u hu)
    | step hreach hguard hstep ih =>
        exact bounded_step ih (orderly_of_reachable hreach) (dated_of_reachable hreach) hguard hstep
  intro a hholder
  obtain ⟨u, hu⟩ := Option.isSome_iff_exists.mp hholder
  have hroom := (hbounded a u hu).room
  omega

end

/-! ### Guesses at the code of one user -/

/-- Every statement fails, so that users are in memory only. -/
def withoutDatabase : OtpEnv where
  find := { succeeds := false }
  findByEmail := { succeeds := false }
  count := { succeeds := false }
  write := { succeeds := false }
  newOtp := str "123456"

def confirmAs (username code : Bytes) : OtpRequest :=
  .confirm withoutDatabase { query := str "username=" ++ username, body := str "otp_code=" ++ code }

/-- The user budi registers. -/
def registerBudi : List (Threads.Action OtpRequest) :=
  .arrive (.register withoutDatabase ⟨str "budi", str "budi@a.id", str "hash", true, true⟩) ::
    List.replicate 9 (.step 0)

/-- Then come some wrong codes, one after the other. -/
def guessesAs (username : Bytes) (n : Nat) : List (Threads.Action OtpRequest) :=
  registerBudi ++ (List.range n).flatMap fun i =>
    .arrive (confirmAs username (str "000000")) :: List.replicate 5 (.step (i + 1))

theorem fiveGuesses_of_reachable_budi :
    FiveGuesses id ((otpRequests id {}).after (guessesAs (str "budi") 4)) :=
  fiveGuesses_of_reachable (fun a u hu => by cases a <;> cases hu)
    (System.reachable_after (by decide +kernel) (by decide +kernel))

/-- Spelled in capitals the user is found, but no attempt is counted. -/
theorem not_fiveGuesses_of_reachable :
    ¬ ∀ lower (w : AuthWorld) s, w.Untried → (otpRequests lower w).Reachable System.anyStep s →
      FiveGuesses lower s := by
  intro h
  have hreach : (otpRequests id {}).Reachable System.anyStep
      ((otpRequests id {}).after (guessesAs (str "BUDI") 6)) :=
    System.reachable_after (by decide +kernel) (System.guarded_anyStep _ _)
  have hfive := h _ _ _ (fun a u hu => by cases a <;> cases hu) hreach (.mem (str "budi"))
    (by decide +kernel)
  exact absurd hfive (by decide +kernel)

end ExamVan.Auth
