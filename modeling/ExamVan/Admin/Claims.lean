import Mathlib.Data.Multiset.Bind
import ExamVan.Admin.Handlers

/-!
# Token claims are exact

`seen_tokens_` is a registry whose owners are the stored exams and the running handlers. A move
claims a free token, hands a token over between its handler and an exam, or gives one back, so the
registry stays exact across any interleaving.
-/

namespace ExamVan.Admin

open ByteString Models ExamToken Store Http

/-! ### What a handler holds -/

/-- The tokens that a handler has claimed, or taken from an exam, and that no exam carries. -/
def Handler.claims : Handler → Multiset Bytes
  | .createTakeId _ token => {token.text}
  | .createAdd _ _ token _ => {token.text}
  | .editUpdate _ _ token => {token.text}
  | .regenerateUpdate _ _ token => {token.text}
  | .releasing token _ => {token}
  | _ => 0

def Progress.claims : Progress → Multiset Bytes
  | .next h => h.claims
  | .done _ => 0

section

variable {clock : Clock} {io : Surroundings} {s : MemoryStore} {h : Handler} {held : Multiset Bytes}
  {id : Int32}

@[simp]
theorem claims_next (h : Handler) : (Progress.next h).claims = h.claims := rfl

@[simp]
theorem claims_done (r : Reply) : (Progress.done r).claims = 0 := rfl

@[simp]
theorem claims_respond (r : Response) : (Progress.respond r).claims = 0 := rfl

theorem claims_withId {idText : Bytes} {k : Int32 → Progress} (h : ∀ id, (k id).claims = 0) :
    (withId idText k).claims = 0 := by
  unfold withId
  split
  · rfl
  · split
    · rfl
    · exact h _

@[simp]
theorem claims_bulkNext (deleted : Nat) (ids : List Int32) : (bulkNext deleted ids).claims = 0 := by
  cases ids <;> rfl

@[simp]
theorem claims_joinReply (now : Int) (e : Exam) : (joinReply clock now e).claims = 0 := by
  unfold joinReply
  split
  · rfl
  · split <;> rfl

@[simp]
theorem claims_joinMatched (e : Exam) : (joinMatched clock io e).claims = 0 := by
  unfold joinMatched
  split
  · split
    · rfl
    · exact claims_joinReply _ _
    · rfl
  · exact claims_joinReply _ _

/-- A request that has only arrived holds nothing. -/
theorem claims_begin (request : Request) : (request.begin io).claims = 0 := by
  cases request with
  | create form customToken =>
      simp only [Request.begin]
      split
      · rfl
      · split <;> rfl
  | editToken idText token =>
      refine claims_withId fun id => ?_
      unfold beginEdit
      split
      · rfl
      · split <;> rfl
  | tokenMode idText mode resetInterval =>
      refine claims_withId fun id => ?_
      unfold beginTokenMode
      dsimp only
      split
      · rfl
      · split <;> rfl
  | regenerateToken | toggle | start | stop | delete => exact claims_withId fun id => rfl
  | bulkDelete ids =>
      simp only [Request.begin]
      split
      · rfl
      · split
        · rfl
        · exact claims_bulkNext _ _
  | examByToken token =>
      simp only [Request.begin]
      split <;> rfl

/-! ### One move -/

/-- The registry is exact and has no empty token in it. -/
structure Sound (s : MemoryStore) (held : Multiset Bytes) : Prop where
  exact : s.Exact held
  proper : ∀ t ∈ s.seenTokens, IsToken t

theorem Sound.claim (token : Token) (hfree : token.text ∉ s.seenTokens) (hs : Sound s held) :
    Sound { s with seenTokens := insert token.text s.seenTokens } (token.text ::ₘ held) where
  exact := hs.exact.claim hfree
  proper := fun t ht => by
    obtain rfl | ht := Finset.mem_insert.mp ht
    · exact token.isToken
    · exact hs.proper t ht

/-- Both ways to claim a token, with what the handler does after each answer. -/
theorem Sound.claimed {token : Token} {r : Bool × MemoryStore} {granted refused : Progress}
    (hr : r = (false, s) ∨ token.text ∉ s.seenTokens ∧
      r = (true, { s with seenTokens := insert token.text s.seenTokens }))
    (hgranted : granted.claims = {token.text}) (hrefused : refused.claims = 0) (hs : Sound s held) :
    Sound r.2 ((if r.1 then granted else refused).claims + held) := by
  obtain rfl | ⟨hfree, rfl⟩ := hr
  · simpa [hrefused] using hs
  · simpa [hgranted] using hs.claim token hfree

theorem Sound.release {t : Bytes} (hs : Sound s (t ::ₘ held)) : Sound (s.unclaimToken t) held where
  exact := hs.exact.unclaimToken
  proper := fun u hu => hs.proper u (Finset.mem_of_mem_erase hu)

theorem Sound.update_of_token_eq {mutator : Exam → Exam} (htoken : ∀ e, (mutator e).token = e.token)
    (hs : Sound s held) : Sound (s.update id mutator).2 held :=
  ⟨hs.exact.update_of_token_eq htoken, hs.proper⟩

theorem Sound.remove (id : Int32) (hs : Sound s held) : Sound (s.remove id).2 held where
  exact := hs.exact.remove
  proper := by
    unfold MemoryStore.remove
    split
    · exact hs.proper
    · exact fun u hu => hs.proper u (Finset.mem_of_mem_erase hu)

/-- An update that gives the exam a claimed token leaves the old one to be released. It is never
empty, so the guard on `unclaim_token` loses no claim. -/
theorem Sound.retoken {token : Token} {mutator : Exam → Exam} {reply : Response}
    (hmutator : ∀ e, (mutator e).token = token.text) (hs : Sound s (token.text ::ₘ held)) :
    Sound (s.update id mutator).2
      ((afterRetoken token.text reply (s.update id mutator).1).claims + held) := by
  cases hfind : s.getById id with
  | none =>
      rw [MemoryStore.update_of_getById_eq_none hfind]
      exact hs
  | some old =>
      have hexact : (s.update id mutator).2.Exact (old.token ::ₘ held) := by
        refine MemoryStore.Exact.update hfind ?_
        rw [hmutator]
        exact hs.exact
      have hseen : old.token ∈ s.seenTokens :=
        (Registry.Exact.mem_iff hexact).mpr (Multiset.mem_add.mpr (.inr (Multiset.mem_cons_self _ _)))
      have hne : old.token ≠ [] := (hs.proper _ hseen).ne_nil
      have hafter : (afterRetoken token.text reply (some old)).claims = {old.token} := by
        simp [afterRetoken, hne, Progress.claims, Handler.claims]
      refine ⟨?_, hs.proper⟩
      rw [show (s.update id mutator).1 = some old from hfind, hafter, Multiset.singleton_add]
      exact hexact

theorem token_change (now : Bytes) (change : Change) (e : Exam) :
    (change.apply now e).token = e.token := by
  cases change with
  | toggle | start | tokenMode =>
      simp only [Change.apply]
      split <;> rfl
  | stop => rfl

theorem move_sound (hs : Sound s (h.claims + held)) :
    Sound (h.move clock io s).2 ((h.move clock io s).1.claims + held) := by
  cases h with
  | createClaim form token =>
      have hs : Sound s held := by simpa [Handler.claims] using hs
      exact hs.claimed (s.claimToken_cases token.text) rfl rfl
  | createDraw form triesLeft =>
      have hs : Sound s held := by simpa [Handler.claims] using hs
      refine hs.claimed (s.claimToken_cases _) rfl ?_
      cases triesLeft <;> rfl
  | createTakeId form token =>
      refine ⟨?_, hs.proper⟩
      have hclaims : (Handler.move clock io s (.createTakeId form token)).1.claims =
          {token.text} := by
        simp only [Handler.move]
        split <;> rfl
      rw [hclaims]
      exact hs.exact
  | createAdd form id token createdAt =>
      obtain hadd | hadd := s.add_cases (newExam form id token.text createdAt)
      · simpa [Handler.move, hadd, Handler.claims] using hs
      · have happend : Sound { s with exams := s.exams ++ [newExam form id token.text createdAt] }
            held := ⟨hs.exact.append, hs.proper⟩
        simpa [Handler.move, hadd] using happend
  | editClaim idText id token =>
      have hs : Sound s held := by simpa [Handler.claims] using hs
      exact hs.claimed (s.claimTokenIfAbsent_cases token.text id) rfl rfl
  | editUpdate idText id token => exact Sound.retoken (fun _ => rfl) hs
  | regenerateDraw idText id triesLeft =>
      have hs : Sound s held := by simpa [Handler.claims] using hs
      refine hs.claimed (s.claimToken_cases _) rfl ?_
      cases triesLeft <;> rfl
  | regenerateUpdate idText id token => exact Sound.retoken (fun _ => rfl) hs
  | changing idText id change =>
      have hs : Sound s held := by simpa [Handler.claims] using hs
      simpa [Handler.move] using hs.update_of_token_eq (token_change (clock.format io.now) change)
  | deleteLook id idText =>
      have hclaims : (Handler.move clock io s (.deleteLook id idText)).1.claims = 0 := by
        simp only [Handler.move]
        split
        · rfl
        · split <;> rfl
      rw [hclaims]
      exact hs
  | deleteRemove id idText =>
      have hs : Sound s held := by simpa [Handler.claims] using hs
      simpa [Handler.move] using hs.remove id
  | bulkLook id rest deleted =>
      have hclaims : (Handler.move clock io s (.bulkLook id rest deleted)).1.claims = 0 := by
        simp only [Handler.move]
        split
        · rfl
        · exact claims_bulkNext _ _
      rw [hclaims]
      exact hs
  | bulkRemove id rest deleted =>
      have hs : Sound s held := by simpa [Handler.claims] using hs
      simpa [Handler.move] using hs.remove id
  | joinLook token =>
      have hclaims : (Handler.move clock io s (.joinLook token)).1.claims = 0 := by
        simp only [Handler.move]
        split
        · rfl
        · exact claims_joinMatched _
      rw [hclaims]
      exact hs
  | joinSync exam token now =>
      have hs : Sound s held := by simpa [Handler.claims] using hs
      have hupdate : Sound (s.update exam.id (rotate token.text (clock.format now))).2 held :=
        hs.update_of_token_eq fun _ => rfl
      simpa [Handler.move] using hupdate
  | joinRotate exam token now =>
      have hs : Sound s held := by simpa [Handler.claims] using hs
      have hupdate : Sound (s.update exam.id fun e =>
          if rotationStillDue clock now e then rotate token.text (clock.format now) e else e).2 held :=
        hs.update_of_token_eq fun e => by split <;> rfl
      simpa [Handler.move] using hupdate
  | releasing token reply =>
      simpa [Handler.move] using Sound.release (t := token) (by simpa [Handler.claims] using hs)

/-! ### Runs -/

def State.claims (s : State) : Multiset Bytes := s.running.bind Handler.claims

theorem proceed_sound {s : State} {others : Multiset Handler} {r : Progress × MemoryStore}
    (hr : Sound r.2 (r.1.claims + others.bind Handler.claims)) :
    Sound (s.proceed others r).store (s.proceed others r).claims := by
  obtain ⟨p, store⟩ := r
  cases p with
  | next h => simpa [State.proceed, State.claims, Multiset.cons_bind] using hr
  | done reply => simpa [State.proceed, State.claims, Progress.claims] using hr

theorem sound_invariant :
    (handlers clock).Invariant System.anyStep fun s => Sound s.store s.claims where
  initial := ⟨MemoryStore.exact_empty, by simp [handlers, MemoryStore.empty]⟩
  step := by
    intro s s' a hs _ hstep
    cases a with
    | arrive request io =>
        cases hstep
        refine proceed_sound ?_
        rw [claims_begin, zero_add]
        exact hs
    | move h io =>
        obtain ⟨hrunning, rfl⟩ : h ∈ s.running ∧
            s.proceed (s.running.erase h) (h.move clock io s.store) = s' := by
          simpa [handlers, step?] using hstep
        refine proceed_sound (move_sound ?_)
        rw [← Multiset.cons_bind, Multiset.cons_erase hrunning]
        exact hs

end

/-- In every interleaving no two exams have one token, every token of an exam and every token in a
handler's hands is in `seen_tokens_`, and without a handler nothing else is. -/
theorem token_claims_exact {clock : Clock} {s : State}
    (hreach : (handlers clock).Reachable System.anyStep s) :
    (s.store.exams.map Exam.token).Nodup ∧
      (∀ e ∈ s.store.exams, e.token ∈ s.store.seenTokens) ∧
      (∀ h ∈ s.running, ∀ t ∈ h.claims, t ∈ s.store.seenTokens) ∧
      (s.running = 0 → s.store.seenTokens = (s.store.exams.map Exam.token).toFinset) := by
  have hexact := (hreach.holds sound_invariant).exact
  have hmem : ∀ t, t ∈ s.store.seenTokens ↔ t ∈ s.store.exams.map Exam.token ∨ t ∈ s.claims := by
    intro t
    rw [Registry.Exact.mem_iff hexact, Multiset.mem_add, MemoryStore.tokens, Multiset.mem_coe]
  refine ⟨?_, fun e he => ?_, fun h hh t ht => ?_, fun hidle => ?_⟩
  · exact Multiset.coe_nodup.mp (Multiset.nodup_add.mp (Registry.Exact.nodup hexact)).1
  · exact (hmem _).mpr (.inl (List.mem_map_of_mem he))
  · exact (hmem t).mpr (.inr (Multiset.mem_bind.mpr ⟨h, hh, ht⟩))
  · ext t
    have hnone : s.claims = 0 := by rw [State.claims, hidle, Multiset.zero_bind]
    rw [hmem, hnone, List.mem_toFinset]
    simp

/-- A clock that is read in the first minutes of 1970. -/
def epochClock : Clock where
  parse text :=
    if text = str "1970-01-01T00:00:00Z" then some 0
    else if text = str "1970-01-01T00:01:00Z" then some (60 * second)
    else none
  format now :=
    if now < 60 * second then str "1970-01-01T00:00:00Z" else str "1970-01-01T00:01:00Z"

def tokenA : Token := ⟨str "AAAAAAAA", by decide⟩

def tokenB : Token := ⟨str "BBBBBBBB", by decide⟩

def plainForm : CreateForm := { name := str "UTS", filePath := str "uts.pdf" }

/-- Two administrators ask for one token, and one of them edits it while the exam is deleted. -/
def contendedRun : List Action :=
  [.arrive (.create plainForm tokenA.text) {}, .arrive (.create plainForm tokenA.text) {},
    .move (.createClaim plainForm tokenA) {}, .move (.createClaim plainForm tokenA) {},
    .move (.createTakeId plainForm tokenA) {},
    .move (.createAdd plainForm 1 tokenA (epochClock.format 0)) {},
    .arrive (.editToken (str "1") tokenB.text) {}, .move (.editClaim (str "1") 1 tokenB) {},
    .arrive (.delete (str "1")) {}, .move (.deleteLook 1 (str "1")) {},
    .move (.deleteRemove 1 (str "1")) {}, .move (.editUpdate (str "1") 1 tokenB) {}]

theorem token_claims_exact_contendedRun :
    let s := (handlers epochClock).after contendedRun
    (s.store.exams.map Exam.token).Nodup ∧
      (∀ e ∈ s.store.exams, e.token ∈ s.store.seenTokens) ∧
      (∀ h ∈ s.running, ∀ t ∈ h.claims, t ∈ s.store.seenTokens) ∧
      (s.running = 0 → s.store.seenTokens = (s.store.exams.map Exam.token).toFinset) :=
  token_claims_exact (System.reachable_after (by decide +kernel) (System.guarded_anyStep _ _))

end ExamVan.Admin
