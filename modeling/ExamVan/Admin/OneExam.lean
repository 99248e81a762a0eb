import ExamVan.Admin.Claims

/-!
# A token opens one exam

An exam is opened by its permanent token and its active token, so different exams must have all of
these apart. The claims keep the permanent tokens apart. Nothing keeps an active token from being
chosen, claimed or drawn again: `seen_tokens_` does not hold it once a rotation has replaced the
permanent one, and the rotation itself looks at no other exam.
-/

namespace ExamVan.Admin

open ByteString Models ExamToken Store

/-! ### Exams apart -/

structure Apart (e e' : Exam) : Prop where
  token : e.token ≠ e'.token
  token_active : e.token ≠ e'.activeToken
  active_token : e.activeToken ≠ e'.token
  active : e.activeToken ≠ e'.activeToken

theorem Apart.symm {e e' : Exam} (h : Apart e e') : Apart e' e :=
  ⟨h.token.symm, h.active_token.symm, h.token_active.symm, h.active.symm⟩

/-- An exam whose tokens were those of another one is apart from the same exams. -/
theorem Apart.of_eq {e e₀ other : Exam} (htoken : e.token = e₀.token)
    (hactive : e.activeToken = e₀.activeToken ∨ e.activeToken = e₀.token) (h : Apart e₀ other) :
    Apart e other := by
  obtain hactive | hactive := hactive
  · exact ⟨htoken ▸ h.token, htoken ▸ h.token_active, hactive ▸ h.active_token, hactive ▸ h.active⟩
  · exact ⟨htoken ▸ h.token, htoken ▸ h.token_active, hactive ▸ h.token, hactive ▸ h.token_active⟩

structure WellNamed (e : Exam) : Prop where
  token : IsToken e.token
  active : IsToken e.activeToken

/-- A token that opens an exam is one of its two, up to case and blanks. -/
theorem eq_of_matchesToken {e : Exam} {t : Bytes} (hnamed : WellNamed e)
    (h : matchesToken e t = true) :
    (trim t).map toUpper = e.token ∨ (trim t).map toUpper = e.activeToken := by
  have hsame : ∀ ref, IsToken ref → sameToken (trim t) ref = true → (trim t).map toUpper = ref := by
    intro ref href hmatch
    have heq : (trim t).map toUpper = ref.map toUpper := by
      simpa [sameToken, href.ne_nil] using hmatch
    rw [heq, toUpper_of_isToken href]
  simp only [matchesToken] at h
  split at h
  · cases h
  · split at h
    · exact .inr (hsame _ hnamed.active h)
    · split at h
      next hactive => exact .inr (hsame _ hnamed.active (Bool.and_eq_true_iff.mp hactive).2)
      next => exact .inl (hsame _ hnamed.token (Bool.and_eq_true_iff.mp h).2)

theorem not_both_match {e e' : Exam} {t : Bytes} (hnamed : WellNamed e) (hnamed' : WellNamed e')
    (h : Apart e e') : ¬ (matchesToken e t = true ∧ matchesToken e' t = true) := by
  rintro ⟨hmatch, hmatch'⟩
  obtain heq | heq := eq_of_matchesToken hnamed hmatch <;>
    obtain heq' | heq' := eq_of_matchesToken hnamed' hmatch'
  · exact h.token (heq.symm.trans heq')
  · exact h.token_active (heq.symm.trans heq')
  · exact h.active_token (heq.symm.trans heq')
  · exact h.active (heq.symm.trans heq')

/-- Where at most one element passes a test, the search finds it in every order. -/
theorem find?_eq_of_perm {α : Type*} {p : α → Bool} {l l' : List α} (hperm : l'.Perm l)
    (hone : l.Pairwise fun a b => ¬ (p a = true ∧ p b = true)) : l'.find? p = l.find? p := by
  have hpairwise := hone.sublist (List.filter_sublist (p := p))
  have hpasses : ∀ a ∈ l.filter p, p a = true := fun a ha => (List.mem_filter.mp ha).2
  have hfilter : (l'.filter p).Perm (l.filter p) := hperm.filter p
  rw [← List.head?_filter, ← List.head?_filter]
  cases hl : l.filter p with
  | nil =>
      rw [hl] at hfilter
      rw [hfilter.eq_nil]
  | cons a rest =>
      cases rest with
      | nil =>
          rw [hl] at hfilter
          rw [hfilter.eq_singleton]
      | cons b rest =>
          rw [hl] at hpairwise hpasses
          have hab := (List.pairwise_cons.mp hpairwise).1 b List.mem_cons_self
          exact absurd ⟨hpasses a (by simp), hpasses b (by simp)⟩ hab

/-! ### Exams of the store -/

structure Separate (exams : List Exam) : Prop where
  named : ∀ e ∈ exams, WellNamed e
  apart : exams.Pairwise Apart

variable {clock : Clock} {s : MemoryStore} {id : Int32} {held : Multiset Bytes}

/-- The exams but for the one that an operation on this id acts on. -/
def others (s : MemoryStore) (id : Int32) : List Exam := s.exams.eraseP fun e => e.id = id

theorem Separate.cons_others {e : Exam} (hfind : s.getById id = some e) (hs : Separate s.exams) :
    Separate (e :: others s id) := by
  obtain ⟨before, after, -, hsplit, herase, -⟩ := MemoryStore.split_of_getById hfind
  have hperm : (e :: (before ++ after)).Perm s.exams := hsplit ▸ List.perm_middle.symm
  rw [others, herase]
  exact ⟨fun x hx => hs.named x (hperm.subset hx),
    (hperm.pairwise_iff fun h => Apart.symm h).mpr hs.apart⟩

theorem Separate.update {mutator : Exam → Exam} (hs : Separate s.exams)
    (hchanged : ∀ e ∈ s.getById id, Separate (e :: others s id) →
      Separate (mutator e :: others s id)) :
    Separate (s.update id mutator).2.exams := by
  cases hfind : s.getById id with
  | none =>
      rw [MemoryStore.update_of_getById_eq_none hfind]
      exact hs
  | some e =>
      obtain ⟨before, after, -, -, herase, hupdate⟩ := MemoryStore.split_of_getById hfind
      have hnew := hchanged e hfind (hs.cons_others hfind)
      rw [others, herase] at hnew
      have hperm : (before ++ mutator e :: after).Perm (mutator e :: (before ++ after)) :=
        List.perm_middle
      rw [hupdate]
      exact ⟨fun x hx => hnew.named x (hperm.subset hx),
        (hperm.pairwise_iff fun h => Apart.symm h).mpr hnew.apart⟩

theorem Separate.cons {e : Exam} {exams : List Exam} (hs : Separate exams) (hnamed : WellNamed e)
    (hapart : ∀ other ∈ exams, Apart e other) : Separate (e :: exams) :=
  ⟨List.forall_mem_cons.mpr ⟨hnamed, hs.named⟩, List.pairwise_cons.mpr ⟨hapart, hs.apart⟩⟩

theorem Separate.tail {e : Exam} {exams : List Exam} (hs : Separate (e :: exams)) :
    Separate exams :=
  ⟨(List.forall_mem_cons.mp hs.named).2, (List.pairwise_cons.mp hs.apart).2⟩

/-- An exam changes without a new token. -/
theorem Separate.change {e e₀ : Exam} {exams : List Exam} (htoken : e.token = e₀.token)
    (hactive : e.activeToken = e₀.activeToken ∨ e.activeToken = e₀.token)
    (hs : Separate (e₀ :: exams)) : Separate (e :: exams) := by
  have hnamed := hs.named e₀ List.mem_cons_self
  refine hs.tail.cons ⟨htoken ▸ hnamed.token, ?_⟩ fun other hother =>
    ((List.pairwise_cons.mp hs.apart).1 other hother).of_eq htoken hactive
  obtain hactive | hactive := hactive
  · exact hactive ▸ hnamed.active
  · exact hactive ▸ hnamed.token

/-- An exam gets a new active token that no other exam has. -/
theorem Separate.rotate {e : Exam} {exams : List Exam} {token : Token} (now : Bytes)
    (hfree : ∀ other ∈ exams, other.token ≠ token.text ∧ other.activeToken ≠ token.text)
    (hs : Separate (e :: exams)) : Separate (rotate token.text now e :: exams) := by
  refine hs.tail.cons ⟨(hs.named e List.mem_cons_self).token, token.isToken⟩ fun other hother => ?_
  have hapart := (List.pairwise_cons.mp hs.apart).1 other hother
  exact ⟨hapart.token, hapart.token_active, (hfree other hother).1.symm, (hfree other hother).2.symm⟩

/-- An exam whose two tokens are one token that no other exam has. -/
theorem Separate.retoken {e : Exam} {exams : List Exam} {token : Token}
    (htoken : e.token = token.text) (hactive : e.activeToken = token.text)
    (hfree : ∀ other ∈ exams, other.token ≠ token.text ∧ other.activeToken ≠ token.text)
    (hs : Separate exams) : Separate (e :: exams) := by
  refine hs.cons ⟨htoken ▸ token.isToken, hactive ▸ token.isToken⟩ fun other hother => ?_
  obtain ⟨hfreeToken, hfreeActive⟩ := hfree other hother
  exact ⟨htoken ▸ hfreeToken.symm, htoken ▸ hfreeActive.symm, hactive ▸ hfreeToken.symm,
    hactive ▸ hfreeActive.symm⟩

/-- A token in a handler's hands is on no exam. -/
theorem Sound.ne_token {t : Bytes} {e : Exam} (hs : Sound s (t ::ₘ held)) (he : e ∈ s.exams) :
    e.token ≠ t := by
  rintro rfl
  have hnodup := Registry.Exact.nodup hs.exact
  have hdisjoint := (Multiset.nodup_add.mp hnodup).2.2
  have hmem : e.token ∈ s.tokens := Multiset.mem_coe.mpr (List.mem_map_of_mem he)
  exact Multiset.disjoint_left.mp hdisjoint hmem (Multiset.mem_cons_self _ _)

/-! ### Steps without a clash -/

/-- The token that a move writes is not in use by another exam where the claims do not look: as an
active token, or, for a rotation, as any token. -/
def Unshared (clock : Clock) (s : MemoryStore) : Handler → Prop
  | .createAdd _ _ token _ => ∀ other ∈ s.exams, other.activeToken ≠ token.text
  | .editUpdate _ id token | .regenerateUpdate _ id token =>
      ∀ _e ∈ s.getById id, ∀ other ∈ others s id, other.activeToken ≠ token.text
  | .joinSync exam token _ =>
      ∀ _e ∈ s.getById exam.id, ∀ other ∈ others s exam.id,
        other.token ≠ token.text ∧ other.activeToken ≠ token.text
  | .joinRotate exam token now =>
      ∀ e ∈ s.getById exam.id, rotationStillDue clock now e = true → ∀ other ∈ others s exam.id,
        other.token ≠ token.text ∧ other.activeToken ≠ token.text
  | _ => True

def NoClash (clock : Clock) (s : State) : Action → Prop
  | .arrive _ _ => True
  | .move h _ => Unshared clock s.store h

instance (clock : Clock) (s : MemoryStore) (h : Handler) : Decidable (Unshared clock s h) := by
  cases h <;> unfold Unshared <;> infer_instance

instance (clock : Clock) (s : State) (a : Action) : Decidable (NoClash clock s a) := by
  cases a <;> unfold NoClash <;> infer_instance

/-! ### One move -/

theorem activeToken_change (now : Bytes) (change : Change) (e : Exam) :
    (change.apply now e).activeToken = e.activeToken ∨
      (change.apply now e).activeToken = e.token := by
  cases change with
  | toggle | tokenMode =>
      refine .inl ?_
      simp only [Change.apply]
      split <;> rfl
  | start =>
      simp only [Change.apply]
      split
      · exact .inl rfl
      · exact .inr rfl
  | stop => exact .inl rfl

theorem exams_claimed {t : Bytes} {r : Bool × MemoryStore}
    (hr : r = (false, s) ∨ t ∉ s.seenTokens ∧
      r = (true, { s with seenTokens := insert t s.seenTokens })) : r.2.exams = s.exams := by
  obtain rfl | ⟨-, rfl⟩ := hr <;> rfl

theorem exams_remove (s : MemoryStore) (id : Int32) :
    (s.remove id).2.exams.Sublist s.exams := by
  unfold MemoryStore.remove
  split
  · exact List.Sublist.refl _
  · exact List.eraseP_sublist

/-- A claimed token that no other exam has as its active token is on no other exam. -/
theorem free_of_claim {t : Bytes} (hs : Sound s (t ::ₘ held))
    (hactive : ∀ other ∈ others s id, other.activeToken ≠ t) :
    ∀ other ∈ others s id, other.token ≠ t ∧ other.activeToken ≠ t :=
  fun other hother => ⟨hs.ne_token (List.mem_of_mem_eraseP hother), hactive other hother⟩

theorem move_separate {io : Surroundings} {h : Handler} (hclaims : Sound s (h.claims + held))
    (hs : Separate s.exams) (hunshared : Unshared clock s h) :
    Separate (h.move clock io s).2.exams := by
  cases h with
  | createClaim form token => exact (exams_claimed (s.claimToken_cases token.text)).symm ▸ hs
  | createDraw form triesLeft | regenerateDraw idText id triesLeft =>
      exact (exams_claimed (s.claimToken_cases (drawToken io.random).text)).symm ▸ hs
  | editClaim idText id token =>
      exact (exams_claimed (s.claimTokenIfAbsent_cases token.text id)).symm ▸ hs
  | createAdd form id token createdAt =>
      obtain hadd | hadd := s.add_cases (newExam form id token.text createdAt)
      · simpa [Handler.move, hadd] using hs
      · have hnew : Separate (newExam form id token.text createdAt :: s.exams) :=
          hs.retoken rfl rfl fun other hother => ⟨hclaims.ne_token hother, hunshared other hother⟩
        have hperm := List.perm_append_singleton (newExam form id token.text createdAt) s.exams
        simp only [Handler.move, hadd]
        exact ⟨fun x hx => hnew.named x (hperm.subset hx),
          (hperm.pairwise_iff fun h => Apart.symm h).mpr hnew.apart⟩
  | editUpdate idText id token | regenerateUpdate idText id token =>
      exact hs.update fun e hfind hothers =>
        hothers.tail.retoken rfl rfl (free_of_claim hclaims (hunshared e hfind))
  | changing idText id change =>
      exact hs.update fun e _ hothers =>
        hothers.change (token_change _ change e) (activeToken_change _ change e)
  | joinSync exam token now =>
      exact hs.update fun e hfind hothers => hothers.rotate _ (hunshared e hfind)
  | joinRotate exam token now =>
      refine hs.update fun e hfind hothers => ?_
      split
      next hdue => exact hothers.rotate _ (hunshared e hfind hdue)
      next => exact hothers
  | deleteRemove id idText | bulkRemove id rest deleted =>
      have hsublist := exams_remove s id
      exact ⟨fun e he => hs.named e (hsublist.subset he), hs.apart.sublist hsublist⟩
  | createTakeId | deleteLook | bulkLook | joinLook | releasing => exact hs

/-! ### Runs -/

theorem separate_invariant :
    (handlers clock).Invariant (NoClash clock) fun s =>
      Sound s.store s.claims ∧ Separate s.store.exams := by
  refine System.Invariant.using
    ⟨sound_invariant.initial, fun hs _ => sound_invariant.step hs trivial⟩ ?_ ?_
  · exact ⟨by simp [handlers, MemoryStore.empty], List.Pairwise.nil⟩
  intro s s' a hclaims hs hguard hstep
  have hproceed : ∀ (others : Multiset Handler) (r : Progress × MemoryStore),
      (s.proceed others r).store = r.2 := by
    rintro others ⟨p, store⟩
    cases p <;> rfl
  cases a with
  | arrive request io =>
      cases hstep
      rw [hproceed]
      exact hs
  | move h io =>
      obtain ⟨hrunning, rfl⟩ : h ∈ s.running ∧
          s.proceed (s.running.erase h) (h.move clock io s.store) = s' := by
        simpa [handlers, step?] using hstep
      rw [hproceed]
      have hsound : Sound s.store (h.claims + (s.running.erase h).bind Handler.claims) := by
        rw [← Multiset.cons_bind, Multiset.cons_erase hrunning]
        exact hclaims
      exact move_separate hsound hs hguard

/-- Without a clash no token opens two exams, and the order of the store does not matter to a
lookup. -/
theorem token_opens_one_exam {s : State}
    (hreach : (handlers clock).Reachable (NoClash clock) s) (t : Bytes) :
    (s.store.exams.Pairwise fun e e' =>
        ¬ (matchesToken e t = true ∧ matchesToken e' t = true)) ∧
      ∀ order : List Exam, order.Perm s.store.exams → lookup order t = lookup s.store.exams t := by
  have hseparate := (hreach.holds separate_invariant).2
  have hpairwise : s.store.exams.Pairwise fun e e' =>
      ¬ (matchesToken e t = true ∧ matchesToken e' t = true) :=
    hseparate.apart.imp_of_mem fun he he' =>
      not_both_match (hseparate.named _ he) (hseparate.named _ he')
  exact ⟨hpairwise, fun order hperm => find?_eq_of_perm hperm hpairwise⟩

/-- One exam is created, made dynamic and started, and rotates its active token when a student joins
after a minute. Then a second exam is created with a token of the administrator's choice. -/
def rotatedRun (drawn : Fin 8 → UInt8) (chosen : Token) : List Action :=
  let first : Exam := newExam plainForm 1 tokenA.text (epochClock.format 0)
  let mode := Change.tokenMode (str "dynamic") (some 1)
  let opened := Change.start.apply (epochClock.format 0) (mode.apply [] first)
  let io : Surroundings := { now := 60 * second, random := drawn }
  [.arrive (.create plainForm tokenA.text) {}, .move (.createClaim plainForm tokenA) {},
    .move (.createTakeId plainForm tokenA) {},
    .move (.createAdd plainForm 1 tokenA (epochClock.format 0)) {},
    .arrive (.tokenMode (str "1") (str "dynamic") (some 1)) {}, .move (.changing (str "1") 1 mode) {},
    .arrive (.start (str "1")) {}, .move (.changing (str "1") 1 .start) {},
    .arrive (.examByToken tokenA.text) io, .move (.joinLook tokenA.text) io,
    .move (.joinRotate opened (drawToken drawn) (60 * second)) io,
    .arrive (.create plainForm chosen.text) {}, .move (.createClaim plainForm chosen) {},
    .move (.createTakeId plainForm chosen) {},
    .move (.createAdd plainForm 2 chosen (epochClock.format 0)) {}]

theorem token_opens_one_exam_rotatedRun :
    let s := (handlers epochClock).after (rotatedRun (fun _ => 2) tokenB)
    (s.store.exams.Pairwise fun e e' =>
        ¬ (matchesToken e tokenB.text = true ∧ matchesToken e' tokenB.text = true)) ∧
      ∀ order : List Exam, order.Perm s.store.exams →
        lookup order tokenB.text = lookup s.store.exams tokenB.text :=
  token_opens_one_exam (System.reachable_after (by decide +kernel) (by decide +kernel)) tokenB.text

/-- The administrator's choice is the active token of the first exam. -/
theorem not_token_opens_one_exam :
    ¬ ∀ (clock : Clock) (s : State), (handlers clock).Reachable System.anyStep s → ∀ t,
      (s.store.exams.Pairwise fun e e' =>
          ¬ (matchesToken e t = true ∧ matchesToken e' t = true)) ∧
        ∀ order : List Exam, order.Perm s.store.exams → lookup order t = lookup s.store.exams t := by
  intro h
  have hreach : (handlers epochClock).Reachable System.anyStep
      ((handlers epochClock).after (rotatedRun (fun _ => 1) tokenB)) :=
    System.reachable_after (by decide +kernel) (System.guarded_anyStep _ _)
  have hclash : ¬ ((handlers epochClock).after
      (rotatedRun (fun _ => 1) tokenB)).store.exams.Pairwise fun e e' =>
        ¬ (matchesToken e tokenB.text = true ∧ matchesToken e' tokenB.text = true) := by
    decide +kernel
  exact hclash (h _ _ hreach tokenB.text).1

end ExamVan.Admin
