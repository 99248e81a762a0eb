import ExamVan.Api.Submit
import ExamVan.Lib.Threads

/-!
# Retries of a submission

`submit_exam` looks the `Idempotency-Key` up under a mutex and stores it under the same mutex after
the push. It does not hold the mutex in between, so a retry that comes in there finds no key.
-/

namespace ExamVan.Api

open ByteString Queue Models Http

/-! ### One call, step by step -/

inductive Phase where
  | arrived
  | persisting (job : SubmissionJob) (exam : Exam)
  | enqueueing (job : SubmissionJob) (exam : Exam)
  | storing (job : SubmissionJob) (exam : Exam)
  | answered (response : Response)

/-- A call of `submit_exam` that has come as far as its phase. -/
structure Call where
  env : Surroundings
  req : Request
  phase : Phase

/-- What the calls share. `enqueued` is the history of the jobs that were enqueued. -/
structure Shared where
  world : World
  enqueued : List (Request × SubmissionJob)

/-- The checks, and the lookup under the mutex. -/
def lookUp (env : Surroundings) (req : Request) (w : World) : Phase :=
  match checkSubmit env req with
  | .error r => .answered r
  | .ok (job, exam) =>
      match storedJobId req job.examId w with
      | some jobId => .answered (queuedResponse jobId (congrats exam))
      | none => .persisting job exam

/-- `g_idem_jobs[…] = job.job_id`, under the mutex. -/
def storeJobId (req : Request) (job : SubmissionJob) (w : World) : World :=
  { w with
    idemJobs := if idemKey req = [] then w.idemJobs
      else w.idemJobs.insert (cacheKey job.examId (idemKey req)) job.jobId }

/-- The next step of a call. -/
def Call.next? (c : Call) (s : Shared) : Option (Call × Shared) :=
  match c.phase with
  | .arrived => some ({ c with phase := lookUp c.env c.req s.world }, s)
  | .persisting job exam =>
      let persisted := persistSubmissionPending c.env job s.world
      some
        ({ c with
            phase := if persisted.1 then .enqueueing job exam
              else .answered (failure 503 (str "Gagal menyimpan jawaban. Silakan coba lagi.")) },
          { s with world := persisted.2 })
  | .enqueueing job exam =>
      let queued := enqueue c.env job s.world
      some
        ({ c with
            phase := if queued.1 then .storing job exam
              else .answered
                (failure 503 (str "Antrean jawaban tidak tersedia. Silakan coba lagi.")) },
          { world := queued.2
            enqueued := if queued.1 then s.enqueued ++ [(c.req, job)] else s.enqueued })
  | .storing job exam =>
      some ({ c with phase := .answered (queuedResponse job.jobId (congrats exam)) },
        { s with world := storeJobId c.req job s.world })
  | .answered _ => none

def receive (r : Surroundings × Request) : Call := ⟨r.1, r.2, .arrived⟩

/-- A process that has just started: `g_idem_jobs` is empty. -/
def started (w : World) : Shared := ⟨{ w with idemJobs := OrderedMap.empty }, []⟩

/-- All calls of `submit_exam` in one process. -/
def calls (w : World) : System (Threads Call Shared) (Threads.Action (Surroundings × Request)) :=
  Threads.system receive Call.next? (started w)

/-- Left alone, a call does what `submit_exam` does. -/
theorem alone_submitExam (env : Surroundings) (req : Request) (s : Shared) :
    ∃ s', Threads.Alone Call.next? (receive (env, req), s)
        (⟨env, req, .answered (submitExam env req s.world).1⟩, s') ∧
      s'.world = (submitExam env req s.world).2 := by
  have hlookUp : Threads.Alone Call.next? (receive (env, req), s)
      (⟨env, req, lookUp env req s.world⟩, s) := (Threads.Alone.refl _).step rfl
  unfold submitExam
  cases hcheck : checkSubmit env req with
  | error r =>
      simp only [lookUp, hcheck] at hlookUp
      exact ⟨s, hlookUp, rfl⟩
  | ok pair =>
      obtain ⟨job, exam⟩ := pair
      cases hstored : storedJobId req job.examId s.world with
      | some jobId =>
          simp only [lookUp, hcheck, hstored] at hlookUp
          exact ⟨s, by simpa only [hstored] using hlookUp, by simp only [hstored]⟩
      | none =>
          simp only [lookUp, hcheck, hstored] at hlookUp
          have hpersist := hlookUp.step rfl
          cases hpersisted : (persistSubmissionPending env job s.world).1 with
          | false =>
              simp only [hpersisted, Bool.false_eq_true, if_false] at hpersist
              exact ⟨_, by simpa [hstored, hpersisted] using hpersist, by simp [hstored, hpersisted]⟩
          | true =>
              simp only [hpersisted, if_true] at hpersist
              have hpush := hpersist.step rfl
              cases hqueued : (enqueue env job (persistSubmissionPending env job s.world).2).1 with
              | false =>
                  simp only [hqueued, Bool.false_eq_true, if_false] at hpush
                  exact ⟨_, by simpa [hstored, hpersisted, hqueued] using hpush,
                    by simp [hstored, hpersisted, hqueued]⟩
              | true =>
                  simp only [hqueued, if_true] at hpush
                  exact ⟨_, by simpa [hstored, hpersisted, hqueued] using hpush.step rfl,
                    by simp [hstored, hpersisted, hqueued, storeJobId]⟩

/-! ### Keys -/

/-- An exam with an `Idempotency-Key`. Without one, `submit_exam` stores nothing. -/
structure SubmitKey where
  examId : Int32
  key : Bytes
  nonempty : key ≠ []

def SubmitKey.cacheKey (k : SubmitKey) : Bytes := Api.cacheKey k.examId k.key

theorem cacheKey_inj {a b : Int32} {k l : Bytes} (h : cacheKey a k = cacheKey b l) :
    a = b ∧ k = l :=
  (intText_append_inj (by decide) (by decide)).mp h

def examIdOf (req : Request) : Option Int32 := stoi (fieldOr req.params (str "exam_id") [])

/-- The request is for this exam and carries this key. -/
def Request.Has (req : Request) (k : SubmitKey) : Prop :=
  examIdOf req = some k.examId ∧ idemKey req = k.key

instance (req : Request) (k : SubmitKey) : Decidable (req.Has k) :=
  inferInstanceAs (Decidable (_ ∧ _))

/-- The jobs enqueued for requests with this key. -/
def Shared.jobsFor (s : Shared) (k : SubmitKey) : List SubmissionJob :=
  (s.enqueued.filter fun entry => entry.1.Has k).map Prod.snd

theorem examId_of_checkSubmit {env : Surroundings} {req : Request} {job : SubmissionJob}
    {exam : Exam} (h : checkSubmit env req = .ok (job, exam)) :
    examIdOf req = some job.examId := by
  have hdraft : ∃ examId, examIdOf req = some examId ∧ job = draftJob env req examId := by
    unfold checkSubmit at h
    split at h
    · cases h
    · split at h
      · cases h
      · next idText _ hid examId hstoi =>
          repeat' split at h
          all_goals cases h
          exact ⟨examId, hstoi, rfl⟩
  obtain ⟨examId, hid, rfl⟩ := hdraft
  rw [hid]
  unfold draftJob
  dsimp only
  split <;> rfl

section

variable {req : Request} {k : SubmitKey} {job : SubmissionJob} {w : World} {s s' : Shared}

theorem idemKey_ne_nil (hk : req.Has k) : idemKey req ≠ [] := hk.2 ▸ k.nonempty

theorem storedJobId_of_has (hk : req.Has k) :
    storedJobId req k.examId w = w.idemJobs.find? k.cacheKey := by
  rw [storedJobId, if_neg (idemKey_ne_nil hk), hk.2, SubmitKey.cacheKey]

/-- A stored job id is found under its own key only. -/
theorem find?_storeJobId (hid : examIdOf req = some job.examId) :
    (storeJobId req job w).idemJobs.find? k.cacheKey =
      if req.Has k then some job.jobId else w.idemJobs.find? k.cacheKey := by
  by_cases hk : req.Has k
  · have hexam : job.examId = k.examId := Option.some.inj (hid.symm.trans hk.1)
    rw [if_pos hk, storeJobId, if_neg (idemKey_ne_nil hk), hk.2, hexam]
    exact OrderedMap.find?_insert_self ..
  · rw [if_neg hk, storeJobId]
    split
    · rfl
    · refine OrderedMap.find?_insert_of_ne fun heq => hk ?_
      obtain ⟨hexam, hkey⟩ := cacheKey_inj heq
      exact ⟨hexam ▸ hid, hkey.symm⟩

theorem idemJobs_persistSubmissionPending (env : Surroundings) (job : SubmissionJob) (w : World) :
    (persistSubmissionPending env job w).2.idemJobs = w.idemJobs := by
  obtain ⟨-, h⟩ | ⟨-, h⟩ | ⟨-, h⟩ := persistSubmissionPending_cases env job w <;> rw [h]

theorem idemJobs_enqueue (env : Surroundings) (job : SubmissionJob) (w : World) :
    (enqueue env job w).2.idemJobs = w.idemJobs := by
  unfold enqueue
  split
  · rfl
  · rw [enqueueJobToRedis_eq]
    cases env.redis.pushes <;> rfl

theorem jobsFor_append (s : Shared) (w : World) (req : Request) (job : SubmissionJob) :
    (Shared.mk w (s.enqueued ++ [(req, job)])).jobsFor k =
      s.jobsFor k ++ if req.Has k then [job] else [] := by
  by_cases hk : req.Has k <;> simp [Shared.jobsFor, hk]

end

/-! ### What is known of a key in every run -/

/-- A stored job id is the id of a job that was enqueued for the key. -/
def Shared.Known (k : SubmitKey) (s : Shared) : Prop :=
  ∀ jobId, s.world.idemJobs.find? k.cacheKey = some jobId →
    ∃ job ∈ s.jobsFor k, job.jobId = jobId

/-- What a call knows by its phase. -/
def Call.Known (k : SubmitKey) (c : Call) (s : Shared) : Prop :=
  match c.phase with
  | .arrived => True
  | .persisting job _ => examIdOf c.req = some job.examId
  | .enqueueing job _ => examIdOf c.req = some job.examId
  | .storing job _ =>
      examIdOf c.req = some job.examId ∧ (c.req.Has k → job ∈ s.jobsFor k)
  | .answered r =>
      c.req.Has k → r.status = 202 →
        ∃ job ∈ s.jobsFor k, ∃ text, r = queuedResponse job.jobId text

section

variable {k : SubmitKey} {c c' : Call} {s s' : Shared}

theorem Call.Known.mono (hsub : s.jobsFor k ⊆ s'.jobsFor k) (h : c.Known k s) : c.Known k s' := by
  unfold Call.Known at h ⊢
  split at h
  · trivial
  · exact h
  · exact h
  · exact ⟨h.1, fun hk => hsub (h.2 hk)⟩
  · intro hk hstatus
    obtain ⟨job, hjob, text, hr⟩ := h hk hstatus
    exact ⟨job, hsub hjob, text, hr⟩

theorem known_lookUp (env : Surroundings) (req : Request) (hs : s.Known k) :
    (Call.mk env req (lookUp env req s.world)).Known k s := by
  unfold lookUp
  cases hcheck : checkSubmit env req with
  | error r => exact fun _ hstatus => absurd hstatus (status_of_checkSubmit env req hcheck)
  | ok pair =>
      obtain ⟨job, exam⟩ := pair
      have hid := examId_of_checkSubmit hcheck
      cases hstored : storedJobId req job.examId s.world with
      | none =>
          simp only [hstored]
          exact hid
      | some jobId =>
          simp only [hstored]
          intro hk _
          have hexam : job.examId = k.examId := Option.some.inj (hid.symm.trans hk.1)
          rw [hexam, storedJobId_of_has hk] at hstored
          obtain ⟨job', hjob', rfl⟩ := hs jobId hstored
          exact ⟨job', hjob', congrats exam, rfl⟩

/-- One step of one call. -/
theorem known_next? (hs : s.Known k) (hc : c.Known k s) (hnext : c.next? s = some (c', s')) :
    s'.Known k ∧ c'.Known k s' ∧ ∀ u : Call, u.Known k s → u.Known k s' := by
  obtain ⟨env, req, phase⟩ := c
  cases phase with
  | arrived =>
      cases hnext
      exact ⟨hs, known_lookUp env req hs, fun _ hu => hu⟩
  | persisting job exam =>
      cases hnext
      refine ⟨?_, ?_, fun _ hu => hu⟩
      · intro jobId hfind
        rw [idemJobs_persistSubmissionPending] at hfind
        exact hs jobId hfind
      · dsimp only
        split
        · exact hc
        · exact fun _ hstatus => absurd hstatus (by simp [Http.failure])
  | enqueueing job exam =>
      cases hnext
      dsimp only
      have hidem := idemJobs_enqueue env job s.world
      cases hqueued : (enqueue env job s.world).1 with
      | false =>
          refine ⟨?_, fun _ hstatus => absurd hstatus (by simp [Http.failure]), fun _ hu => hu⟩
          intro jobId hfind
          exact hs jobId (hidem ▸ hfind)
      | true =>
          have hsub : s.jobsFor k ⊆
              (Shared.mk (enqueue env job s.world).2 (s.enqueued ++ [(req, job)])).jobsFor k := by
            rw [jobsFor_append]
            exact List.subset_append_left _ _
          refine ⟨?_, ⟨hc, fun hk => ?_⟩, fun _ hu => hu.mono hsub⟩
          · intro jobId hfind
            obtain ⟨job', hjob', hjobId⟩ := hs jobId (hidem ▸ hfind)
            exact ⟨job', hsub hjob', hjobId⟩
          · rw [if_pos rfl, jobsFor_append, if_pos hk]
            exact List.mem_append_right _ List.mem_cons_self
  | storing job exam =>
      cases hnext
      refine ⟨?_, fun hk _ => ⟨job, hc.2 hk, congrats exam, rfl⟩, fun _ hu => hu⟩
      intro jobId hfind
      dsimp only at hfind
      rw [find?_storeJobId hc.1] at hfind
      split at hfind
      next hk => exact ⟨job, hc.2 hk, Option.some.inj hfind⟩
      next => exact hs jobId hfind
  | answered r => cases hnext

end

/-! ### Idempotence -/

section

variable (k : SubmitKey)

/-- The call has pushed its job and has yet to store the id. -/
def Call.Stores (c : Call) : Prop := c.req.Has k ∧ ∃ job exam, c.phase = .storing job exam

/-- The call pushes its job next, and the push goes through. -/
def Call.Pushes (c : Call) : Prop :=
  c.req.Has k ∧ c.env.enqueues = true ∧ ∃ job exam, c.phase = .enqueueing job exam

/-- At most one job for the key, and one job id in all its responses of 202. -/
def Idempotent (s : Threads Call Shared) : Prop :=
  (s.world.jobsFor k).length ≤ 1 ∧
    ∃ jobId, ∀ c ∈ s.threads, c.req.Has k → ∀ r, c.phase = .answered r → r.status = 202 →
      ∃ text, r = queuedResponse jobId text

/-- When a job is pushed, no other call has pushed one for the key since the lookup. -/
def Unraced (s : Threads Call Shared) : Threads.Action (Surroundings × Request) → Prop
  | .arrive _ => True
  | .step i => ∀ c, s.threads[i]? = some c → c.Pushes k →
      s.world.world.idemJobs.find? k.cacheKey = none ∧ ∀ c' ∈ s.threads, ¬ c'.Stores k

/-- A job that was enqueued for the key is stored, or about to be. -/
def Covered (s : Threads Call Shared) : Prop :=
  s.world.jobsFor k ≠ [] →
    (s.world.world.idemJobs.find? k.cacheKey).isSome = true ∨ ∃ c ∈ s.threads, c.Stores k

def AllKnown (s : Threads Call Shared) : Prop :=
  s.world.Known k ∧ ∀ c ∈ s.threads, c.Known k s.world

end

section

variable {k : SubmitKey} {c c' : Call} {s s' : Shared} {t t' : Threads Call Shared} {w : World}

theorem jobsFor_of_pushes (hpush : c.Pushes k) :
    ∃ c' s', c.next? s = some (c', s') ∧ c'.Stores k ∧
      (s'.jobsFor k).length = (s.jobsFor k).length + 1 := by
  obtain ⟨env, req, phase⟩ := c
  obtain ⟨hk, henqueues, job, exam, hphase⟩ := hpush
  dsimp only at hk henqueues hphase
  subst hphase
  have hqueued : (enqueue env job s.world).1 = true :=
    (enqueue_spec env job s.world).1.trans henqueues
  refine ⟨_, _, rfl, ⟨hk, job, exam, by simp [hqueued]⟩, ?_⟩
  rw [if_pos hqueued, jobsFor_append, if_pos hk, List.length_append, List.length_singleton]

theorem jobsFor_of_not_pushes (hpush : ¬ c.Pushes k) (hnext : c.next? s = some (c', s')) :
    s'.jobsFor k = s.jobsFor k := by
  obtain ⟨env, req, phase⟩ := c
  cases phase with
  | enqueueing job exam =>
      cases hnext
      dsimp only
      cases hqueued : (enqueue env job s.world).1 with
      | false => rfl
      | true =>
          have hk : ¬ req.Has k := fun hk =>
            hpush ⟨hk, (enqueue_spec env job s.world).1.symm.trans hqueued, job, exam, rfl⟩
          rw [if_pos rfl, jobsFor_append, if_neg hk, List.append_nil]
  | arrived => cases hnext; rfl
  | persisting job exam => cases hnext; rfl
  | storing job exam => cases hnext; rfl
  | answered r => cases hnext

/-- The call that stores the id of the key's job makes it found, and no other step loses it. -/
theorem find?_next? (hc : c.Known k s) (hnext : c.next? s = some (c', s'))
    (hfind : (s.world.idemJobs.find? k.cacheKey).isSome = true ∨ c.Stores k) :
    (s'.world.idemJobs.find? k.cacheKey).isSome = true := by
  obtain ⟨env, req, phase⟩ := c
  cases phase with
  | storing job exam =>
      cases hnext
      dsimp only
      rw [find?_storeJobId hc.1]
      split
      next => rfl
      next hk => exact hfind.resolve_right fun hstores => hk hstores.1
  | arrived =>
      cases hnext
      exact hfind.resolve_right (by simp [Call.Stores])
  | persisting job exam =>
      cases hnext
      dsimp only
      rw [idemJobs_persistSubmissionPending]
      exact hfind.resolve_right (by simp [Call.Stores])
  | enqueueing job exam =>
      cases hnext
      dsimp only
      rw [idemJobs_enqueue]
      exact hfind.resolve_right (by simp [Call.Stores])
  | answered r => cases hnext

theorem allKnown_invariant :
    (calls w).Invariant System.anyStep (AllKnown k) :=
  Threads.invariant (fun jobId hfind => by cases hfind) (fun _ _ => trivial)
    fun hs hc hnext => known_next? hs hc hnext

theorem covered_step {a : Threads.Action (Surroundings × Request)} (hknown : AllKnown k t)
    (hcovered : Covered k t) (hstep : (calls w).step? t a = some t') : Covered k t' := by
  cases a with
  | arrive r =>
      cases hstep
      intro hjobs
      exact (hcovered hjobs).imp_right fun ⟨c, hc, hstores⟩ =>
        ⟨c, List.mem_append_left _ hc, hstores⟩
  | step i =>
      obtain ⟨c, c', s', hi, hnext, rfl⟩ := Threads.step?_step hstep
      have hc := hknown.2 c (List.mem_of_getElem? hi)
      intro hjobs
      by_cases hpush : c.Pushes k
      · obtain ⟨c₁, s₁, hnext₁, hstores, -⟩ := jobsFor_of_pushes (s := t.world) hpush
        obtain ⟨rfl, -⟩ := Prod.mk.inj (Option.some.inj (hnext₁.symm.trans hnext))
        exact Or.inr ⟨c₁, Threads.mem_set_self hi, hstores⟩
      · rw [jobsFor_of_not_pushes hpush hnext] at hjobs
        rcases hcovered hjobs with hfind | ⟨u, hu, hstores⟩
        · exact Or.inl (find?_next? hc hnext (Or.inl hfind))
        · rcases Threads.mem_set_of_mem hi hu with rfl | hu'
          · exact Or.inl (find?_next? hc hnext (Or.inr hstores))
          · exact Or.inr ⟨u, hu', hstores⟩

theorem covered_invariant :
    (calls w).Invariant System.anyStep fun t => AllKnown k t ∧ Covered k t :=
  allKnown_invariant.using (fun hjobs => absurd rfl hjobs) fun hk hcov _ hstep =>
    covered_step hk hcov hstep

/-- With one job, its id is in every response of 202. -/
theorem idempotent_of_length (hknown : AllKnown k t) (hlength : (t.world.jobsFor k).length ≤ 1) :
    Idempotent k t := by
  refine ⟨hlength, ?_⟩
  cases hjobs : t.world.jobsFor k with
  | nil =>
      refine ⟨[], fun c hc hk r hr hstatus => ?_⟩
      have hcall := hknown.2 c hc
      simp only [Call.Known, hr, hjobs] at hcall
      obtain ⟨job, hjob, -⟩ := hcall hk hstatus
      cases hjob
  | cons job rest =>
      have hrest : rest = [] := by
        rw [hjobs, List.length_cons] at hlength
        exact List.eq_nil_of_length_eq_zero (by omega)
      refine ⟨job.jobId, fun c hc hk r hr hstatus => ?_⟩
      have hcall := hknown.2 c hc
      simp only [Call.Known, hr, hjobs, hrest, List.mem_singleton] at hcall
      obtain ⟨job', rfl, text, hresponse⟩ := hcall hk hstatus
      exact ⟨text, hresponse⟩

/-- One step keeps the key idempotent exactly if it does not push a second job. -/
theorem unraced_iff (t : Threads Call Shared) (a : Threads.Action (Surroundings × Request))
    (ht : AllKnown k t ∧ Covered k t) (hidem : Idempotent k t) :
    Unraced k t a ↔ ∀ t' ∈ (calls w).step? t a, Idempotent k t' := by
  obtain ⟨hknown, hcovered⟩ := ht
  have hnextKnown : ∀ {t'}, (calls w).step? t a = some t' → AllKnown k t' := fun hstep =>
    allKnown_invariant.step hknown trivial hstep
  cases a with
  | arrive r =>
      refine ⟨fun _ t' hstep => idempotent_of_length (hnextKnown hstep) ?_, fun _ => trivial⟩
      cases hstep
      exact hidem.1
  | step i =>
      constructor
      · intro hunraced t' hstep
        refine idempotent_of_length (hnextKnown hstep) ?_
        obtain ⟨c, c', s', hi, hnext, rfl⟩ := Threads.step?_step hstep
        by_cases hpush : c.Pushes k
        · obtain ⟨hnone, hstoring⟩ := hunraced c hi hpush
          have hempty : t.world.jobsFor k = [] := by
            by_contra hjobs
            rcases hcovered hjobs with hfind | ⟨u, hu, hstores⟩
            · rw [hnone] at hfind
              cases hfind
            · exact hstoring u hu hstores
          obtain ⟨c₁, s₁, hnext₁, -, hlength⟩ := jobsFor_of_pushes (s := t.world) hpush
          obtain ⟨-, rfl⟩ := Prod.mk.inj (Option.some.inj (hnext₁.symm.trans hnext))
          simp [hlength, hempty]
        · rw [jobsFor_of_not_pushes hpush hnext]
          exact hidem.1
      · intro hkept c hi hpush
        obtain ⟨c', s', hnext, -, hlength⟩ := jobsFor_of_pushes (s := t.world) hpush
        have hstep : (calls w).step? t (.step i) = some ⟨s', t.threads.set i c'⟩ := by
          simp only [calls, Threads.system, hi, hnext, Option.map_some]
        have hone : (s'.jobsFor k).length ≤ 1 := (hkept _ hstep).1
        have hempty : t.world.jobsFor k = [] := List.eq_nil_of_length_eq_zero (by omega)
        constructor
        · rw [Option.eq_none_iff_forall_ne_some]
          intro jobId hfind
          obtain ⟨job, hjob, -⟩ := hknown.1 jobId hfind
          rw [hempty] at hjob
          cases hjob
        · rintro u hu ⟨hk, job, exam, hphase⟩
          have hcall := hknown.2 u hu
          simp only [Call.Known, hphase, hempty] at hcall
          cases hcall.2 hk

end

/-- A submission and its retry. -/
def retryKey : SubmitKey := ⟨7, str "k1", by decide⟩

def retryRequest : Request :=
  { plainRequest with headers := plainRequest.headers.insert (str "Idempotency-Key") (str "k1") }

def retrySurroundings (jobId : Bytes) : Surroundings :=
  { getById := fun id => if id = 7 then some openExam else none
    jobId := jobId }

/-- Both look the key up before either pushes. -/
def racedActions : List (Threads.Action (Surroundings × Request)) :=
  [.arrive (retrySurroundings (str "0f"), retryRequest),
    .arrive (retrySurroundings (str "1f"), retryRequest), .step 0, .step 1, .step 0, .step 1,
    .step 0, .step 1]

end ExamVan.Api
