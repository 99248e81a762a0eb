import ExamVan.Queue.Accounting

/-!
# The retry counter

The counter travels in the payload, so the bound on retries rests on the codec: `from_json` must
find the counter that `to_json` wrote. It does unless one of the five strings before `start_time`
hits the name `retries`; then the value of the next member is read in its place, the same at every
round. A job without such a string keeps having none, so its counter goes up by one for every batch
that fails, until it is in the failed queue.
-/

namespace ExamVan.Queue

open ByteString

/-! ### Reading past members that do not hit -/

/-- What is read for a member is its own value or that of a member before it. -/
theorem mem_of_readAt {name : Bytes} {v w : Scalar} {before after : List Member}
    (h : readAt name (before ++ (name, v) :: after) = some w) :
    w ∈ before.map Prod.snd ∨ w = v := by
  induction before with
  | nil =>
      rw [List.nil_append, readAt, if_pos rfl] at h
      exact Or.inr (Option.some.inj h).symm
  | cons m ms ih =>
      rw [List.cons_append, readAt] at h
      by_cases hname : m.1 = name
      · rw [if_pos hname] at h
        exact Or.inl (Option.some.inj h ▸ List.mem_cons_self)
      · rw [if_neg hname] at h
        by_cases hhit : m.2.Hits name
        · rw [if_pos hhit] at h
          cases ms with
          | nil => exact Or.inr (Option.some.inj h).symm
          | cons next rest =>
              have hnext : w = next.2 := (Option.some.inj h).symm
              exact Or.inl (List.mem_cons_of_mem _ (hnext ▸ List.mem_cons_self))
        · rw [if_neg hhit] at h
          exact (ih h).imp_left (List.mem_cons_of_mem _)

/-! ### The counter in the payload -/

/-- The members before `start_time`. -/
def counterPrefix (j : SubmissionJob) : List Member :=
  [(str "job_id", .text j.jobId), (str "exam_id", .number j.examId),
    (str "student_name", .text j.studentName), (str "exam_number", .text j.examNumber),
    (str "student_class", .text j.studentClass), (str "mac_address", .text j.macAddress)]

/-- No string before `start_time` is `retries`, or ends in a quote and `retries`. -/
def CounterSafe (j : SubmissionJob) : Prop := ∀ m ∈ counterPrefix j, ¬ m.2.Hits (str "retries")

instance (j : SubmissionJob) : Decidable (CounterSafe j) :=
  inferInstanceAs (Decidable (∀ m ∈ counterPrefix j, ¬ m.2.Hits (str "retries")))

/-- `start_time` stands right before the counter, so a hit there is read past. -/
theorem readText_retries {j : SubmissionJob} (h : CounterSafe j) :
    readText (str "retries") j = intText j.retries.toInt := by
  have hnames : ∀ m ∈ counterPrefix j, m.1 ≠ str "retries" ∧ ¬ m.2.Hits (str "retries") := by
    intro m hm
    have hname : m.1 ∈ (counterPrefix j).map Prod.fst := List.mem_map_of_mem hm
    have hne : ∀ name ∈ (counterPrefix j).map Prod.fst, name ≠ str "retries" := by
      change ∀ name ∈ [str "job_id", str "exam_id", str "student_name", str "exam_number",
        str "student_class", str "mac_address"], name ≠ str "retries"
      decide
    exact ⟨hne _ hname, h m hm⟩
  have hread : readAt (str "retries") (scalars j) = some (.number j.retries) := by
    change readAt (str "retries") (counterPrefix j ++ [(str "start_time", .text j.startTime),
      (str "retries", .number j.retries), (str "enqueued_at", .text j.enqueuedAt)]) = _
    rw [readAt_append hnames, readAt, if_neg (show ¬ str "start_time" = str "retries" by decide)]
    split
    · rfl
    · rw [readAt, if_pos rfl]
  rw [readText, hread]
  rfl

theorem reread_retries {j : SubmissionJob} (h : CounterSafe j) :
    (reread j).retries = j.retries := by
  change stoiOrZero (readText (str "retries") j) = j.retries
  rw [readText_retries h, stoiOrZero, stoi_intText]
  rfl

theorem not_hits_intText (n : Int) : ¬ Hits (str "retries") (intText n) := by
  have hbytes : ∀ c ∈ intText n, c = chr '-' ∨ isDigit c = true := fun c hc => mem_intText hc
  have hquote : chr '"' ∉ intText n := by
    intro hc
    exact absurd (hbytes _ hc) (by decide)
  rw [hits_iff_of_quote_notMem hquote]
  intro heq
  have hletter : chr 'r' ∈ intText n := by
    rw [heq]
    decide
  exact absurd (hbytes _ hletter) (by decide)

/-- The text of a value that does not hit the name does not hit it when it is read as a string. -/
theorem not_hits_read {v : Scalar} (h : ¬ v.Hits (str "retries")) :
    ¬ Hits (str "retries") v.read := by
  cases v with
  | text s => exact h
  | number n => exact not_hits_intText n.toInt

/-- A string before `start_time` is read from the strings and numbers up to its own. -/
theorem not_hits_readText {j : SubmissionJob} (h : CounterSafe j) (before : List Member)
    {name : Bytes} {v : Scalar} {after : List Member} (hscalars : scalars j = before ++ (name, v) :: after)
    (hbefore : ∀ m ∈ before ++ [(name, v)], m ∈ counterPrefix j) :
    ¬ Hits (str "retries") (readText name j) := by
  have hvalues : ∀ w ∈ (before ++ [(name, v)]).map Prod.snd, ¬ w.Hits (str "retries") := by
    intro w hw
    obtain ⟨m, hm, rfl⟩ := List.mem_map.mp hw
    exact h m (hbefore m hm)
  rw [readText, hscalars]
  cases hread : readAt name (before ++ (name, v) :: after) with
  | none => decide
  | some w =>
      refine not_hits_read (hvalues w ?_)
      rw [List.map_append, List.mem_append]
      refine (mem_of_readAt hread).imp_right ?_
      rintro rfl
      exact List.mem_singleton_self w

theorem counterSafe_reread {j : SubmissionJob} (h : CounterSafe j) : CounterSafe (reread j) := by
  have hjob : ¬ Hits (str "retries") j.jobId :=
    h (str "job_id", .text j.jobId) List.mem_cons_self
  have hname : ¬ Hits (str "retries") (reread j).studentName :=
    not_hits_readText h ((counterPrefix j).take 2) rfl
      (List.take_subset 3 (counterPrefix j))
  have hnumber : ¬ Hits (str "retries") (reread j).examNumber :=
    not_hits_readText h ((counterPrefix j).take 3) rfl
      (List.take_subset 4 (counterPrefix j))
  have hclass : ¬ Hits (str "retries") (reread j).studentClass :=
    not_hits_readText h ((counterPrefix j).take 4) rfl
      (List.take_subset 5 (counterPrefix j))
  have hmac : ¬ Hits (str "retries") (reread j).macAddress :=
    not_hits_readText h ((counterPrefix j).take 5) rfl
      (List.take_subset 6 (counterPrefix j))
  have hexam : ¬ (Scalar.number (reread j).examId).Hits (str "retries") := id
  intro m hm
  simp only [counterPrefix, List.mem_cons, List.not_mem_nil, or_false] at hm
  obtain rfl | rfl | rfl | rfl | rfl | rfl := hm
  · exact hjob
  · exact hexam
  · exact hname
  · exact hnumber
  · exact hclass
  · exact hmac

/-- The counter comes back with the job, and the job keeps what that rests on. -/
theorem counter_of_fromJson {j job : SubmissionJob} (hid : j.jobId ≠ []) (hsafe : CounterSafe j)
    (h : fromJson (toJson j) = some job) :
    job.retries = j.retries ∧ CounterSafe job ∧ job.jobId ≠ [] := by
  rw [fromJson_toJson hid] at h
  cases h
  exact ⟨reread_retries hsafe, counterSafe_reread hsafe, hid⟩

/-! ### One job on its way -/

/-- In how many batches a job has failed. -/
def State.failures (s : State) (t : Nat) : Nat := s.failedBatches.count t

/-- The counter of a job that has failed in `n` batches, of which `slack` are not counted yet. -/
structure Fit (n slack : Nat) (j : SubmissionJob) : Prop where
  jobId : j.jobId ≠ []
  safe : CounterSafe j
  nonneg : 0 ≤ j.retries.toInt
  le_max : j.retries.toInt ≤ kMaxRetries.toInt
  failures : (n : Int) ≤ j.retries.toInt + slack

theorem toInt_retried {e : Entry} (hnonneg : 0 ≤ e.job.retries.toInt)
    (hlt : e.job.retries < kMaxRetries) :
    e.retried.job.retries.toInt = e.job.retries.toInt + 1 := by
  have hlt' : e.job.retries.toInt < 3 := Int32.lt_iff_toInt_lt.mp hlt
  change (e.job.retries + 1).toInt = _
  rw [Int32.toInt_add]
  exact Int.bmod_eq_of_le (by simp; omega) (by simp; omega)

/-- A retry counts the last failure. -/
theorem Fit.retried {e : Entry} {n slack : Nat} (h : Fit n slack e.job) (hslack : slack ≤ 1)
    (hlt : e.job.retries < kMaxRetries) : Fit n 0 e.retried.job := by
  have hretries := toInt_retried h.nonneg hlt
  have hlt' : e.job.retries.toInt < kMaxRetries.toInt := Int32.lt_iff_toInt_lt.mp hlt
  have hnonneg := h.nonneg
  have hfailures := h.failures
  exact ⟨h.jobId, h.safe, by omega, by omega, by omega⟩

/-- What is true of the payload and of the entries with ticket `t` after `n` failures. -/
abbrev OnTheWay (t n : Nat) : State → Prop :=
  Throughout (fun p => p.ticket = t → ∃ j, p.text = toJson j ∧ Fit n 0 j)
    (fun e => e.ticket = t → Fit n 0 e.job) (fun e => e.ticket = t → Fit n 1 e.job)

theorem carries_fit (t n : Nat) :
    Carries (fun p => p.ticket = t → ∃ j, p.text = toJson j ∧ Fit n 0 j)
      (fun e => e.ticket = t → Fit n 0 e.job) (fun e => e.ticket = t → Fit n 1 e.job) where
  decode := by
    intro p job score hp hjob ht
    obtain ⟨j, htext, hfit⟩ := hp ht
    rw [htext] at hjob
    obtain ⟨hretries, hsafe, hid⟩ := counter_of_fromJson hfit.jobId hfit.safe hjob
    exact ⟨hid, hsafe, hretries ▸ hfit.nonneg, hretries ▸ hfit.le_max, hretries ▸ hfit.failures⟩
  fail := by
    intro e he ht
    have hfit := he ht
    have hfailures := hfit.failures
    exact ⟨hfit.jobId, hfit.safe, hfit.nonneg, hfit.le_max, by omega⟩
  requeue := fun he hlt ht => ⟨_, rfl, (he ht).retried (Nat.le_refl 1) hlt⟩
  drain := fun he hlt ht => ⟨_, rfl, (he ht).retried (Nat.zero_le 1) hlt⟩

/-- A ticket that is in no list but the batch's, or in none at all, puts no demand on the others. -/
theorem Throughout.of_absent {P : Payload → Prop} {W F : Entry → Prop} {s : State} {t : Nat}
    (hP : ∀ p, p.ticket ≠ t → P p) (hW : ∀ e, e.ticket ≠ t → W e)
    (hother : ∀ p, p ≠ .batch → t ∉ s.tickets p) (huntried : ∀ e ∈ s.batch.untried, W e)
    (hfailed : ∀ e ∈ s.batch.failed, F e) : Throughout P W F s where
  pending := fun p hp => hP p fun ht =>
    hother .pending (by decide) (List.mem_map.mpr ⟨p, hp, ht⟩)
  held := fun i e he => hW e fun ht =>
    hother (.worker i) (by simp) (List.mem_map.mpr ⟨e, he, ht⟩)
  batchQueue := fun e he => hW e fun ht =>
    hother .batchQueue (by decide) (List.mem_map.mpr ⟨e, he, ht⟩)
  untried := huntried
  failed := hfailed
  rest := fun e he => hW e fun ht =>
    hother .drain (by decide) (List.mem_map.mpr ⟨e, he, ht⟩)

/-- The tickets of the jobs that no batch will fail again. -/
def State.finished (s : State) : List Nat :=
  s.batch.persisted.map Entry.ticket ++ (s.succeeded ++ s.lost.map Entry.ticket)

/-- The bound for one ticket. -/
structure Bounded (t : Nat) (s : State) : Prop where
  way : OnTheWay t (s.failures t) s
  finished : t ∈ s.finished → s.failures t ≤ 3
  bound : s.failures t ≤ 4
  readable : t ∉ s.tickets .discarded

/-- The text that entered the queue under ticket `t` encodes a job that has not been retried, with
no string that hides its counter. -/
def Tracked (t : Nat) (s : State) : Prop :=
  ∃ j, s.accepted[t]? = some (toJson j) ∧ j.jobId ≠ [] ∧ CounterSafe j ∧ j.retries = 0

/-! ### One step -/

section Step

variable {hash : Bytes → Bytes} {s s' : State} {a : Action} {t : Nat}

theorem failedBatches_step (hstep : Step hash s a s') (ha : ∀ o, a ≠ .persist o) :
    s'.failedBatches = s.failedBatches := by
  have hsettle : ∀ (s : State) io e,
      (s.settleFailed hash io e).failedBatches = s.failedBatches := by
    intro s io e
    obtain ⟨h, -⟩ | ⟨e', r, -, -, h | h⟩ := settleFailed_cases hash s io e <;> rw [h]
  cases hstep with
  | persist hpc o => exact absurd rfl (ha o)
  | pop hpc hpending score =>
      unfold State.receive
      split <;> rfl
  | settleFailed hpc io => exact hsettle _ io _
  | drain hpc io => exact hsettle _ io _
  | _ => rfl

theorem finished_settleFailed (s : State) (io : SettleOutcome) (e : Entry) :
    (s.settleFailed hash io e).finished = s.finished := by
  obtain ⟨h, -⟩ | ⟨e', r, -, hfalse, h | h⟩ := settleFailed_cases hash s io e
  · rw [h]
    rfl
  · rw [h]
    simp only [State.finished, State.succeeded, succeeded_append_failure hfalse]
  · rw [h]
    simp only [State.finished, State.succeeded, succeeded_append_failure hfalse]

/-- Only the transaction finishes jobs; the other steps move them, or start over. -/
theorem finished_step (hstep : Step hash s a s') (ha : ∀ o, a ≠ .persist o) :
    s'.finished ⊆ s.finished := by
  have hstart : ∀ rest : List Nat, ([] : List Entry).map Entry.ticket ++ rest ⊆
      s.batch.persisted.map Entry.ticket ++ rest := fun rest => List.subset_append_right _ rest
  cases hstep with
  | persist hpc o => exact absurd rfl (ha o)
  | pop hpc hpending score =>
      unfold State.receive
      split <;> exact List.Subset.refl _
  | testBatch hpc hnext => obtain rfl | rfl := hnext <;> exact hstart _
  | takeNothing hpc => exact hstart _
  | takeBatch hpc => exact hstart _
  | @settleFailed e failed persisted hpc io =>
      rw [finished_settleFailed]
      simp only [State.finished, State.succeeded, hpc, BatchPc.persisted]
      exact List.Subset.refl _
  | @settlePersisted e persisted hpc now =>
      simp only [State.finished, State.storeResult, State.succeeded, hpc, BatchPc.persisted,
        List.filter_append, List.map_append, List.map_cons, Entry.result]
      intro u hu
      simp only [List.mem_append, List.mem_cons] at hu ⊢
      obtain hu | (hu | hu) | hu := hu
      · exact Or.inl (Or.inr hu)
      · exact Or.inr (Or.inl hu)
      · exact Or.inl (Or.inl (by simpa using hu))
      · exact Or.inr (Or.inr hu)
  | settled hpc => exact hstart _
  | drain hpc io =>
      rw [finished_settleFailed]
      exact List.Subset.refl _
  | _ => exact List.Subset.refl _

/-- A ticket in the batch is in no other place. -/
theorem notMem_tickets_of_batch (hone : OneCopy s) {batch : List Entry}
    (hpc : s.batch = .inFlight batch) (ht : t ∈ batch.map Entry.ticket) :
    ∀ p, p ≠ .batch → t ∉ s.tickets p := by
  intro p hp
  have hmem : t ∈ s.tickets .batch := by
    simpa only [State.tickets, hpc, BatchPc.entries] using ht
  exact Ledger.notMem_of_copies_le_one (hone.le_one t) hmem hp

theorem count_batch_le_one (hone : OneCopy s) {batch : List Entry}
    (hpc : s.batch = .inFlight batch) (t : Nat) : (batch.map Entry.ticket).count t ≤ 1 := by
  have hle := (Ledger.count_le_copies s.tickets t .batch).trans (hone.le_one t)
  simpa only [State.tickets, hpc, BatchPc.entries] using hle

theorem failures_persist (s : State) (o : BatchOutcome) (batch : List Entry) (t : Nat) :
    (s.persist o batch).failures t =
      s.failures t + ((runPersist o batch s.db).failed.map Entry.ticket).count t :=
  List.count_append

/-- The ticket fails in this batch: it is nowhere else, and its count goes up by one. -/
theorem bounded_persist_failed (hone : OneCopy s) (h : Bounded t s) {batch : List Entry}
    (hpc : s.batch = .inFlight batch) {o : BatchOutcome} (hreached : o.pool.reached = true)
    (ht : t ∈ (runPersist o batch s.db).failed.map Entry.ticket) :
    Bounded t (s.persist o batch) := by
  have hperm := (runPersist_perm hreached batch s.db).map Entry.ticket
  rw [List.map_append] at hperm
  have hbatch : t ∈ batch.map Entry.ticket := hperm.subset (List.mem_append_left _ ht)
  have hother := notMem_tickets_of_batch hone hpc hbatch
  have hcount := hperm.count_eq t
  rw [List.count_append] at hcount
  have hfailed := List.count_pos_iff.mpr ht
  have hle := count_batch_le_one hone hpc t
  have hfailures : (s.persist o batch).failures t = s.failures t + 1 := by
    rw [failures_persist]
    omega
  have hfit : ∀ e ∈ batch, e.ticket = t → Fit (s.failures t) 0 e.job := fun e he =>
    h.way.untried e (by rw [hpc]; exact he)
  have hnext : ∀ e ∈ (runPersist o batch s.db).failed, e.ticket = t →
      Fit (s.failures t + 1) 1 e.job := by
    intro e he het
    have hold := hfit e (failed_subset_runPersist o batch s.db he) het
    have hcounted := hold.failures
    exact ⟨hold.jobId, hold.safe, hold.nonneg, hold.le_max, by push_cast; omega⟩
  have hunfinished : t ∉ (s.persist o batch).finished := by
    intro hfinished
    have hpersisted : ((runPersist o batch s.db).persisted.map Entry.ticket).count t = 0 := by
      omega
    have hlost : (s.persist o batch).lost = s.lost := if_pos hreached
    obtain hmem | hmem := List.mem_append.mp hfinished
    · exact absurd (List.count_pos_iff.mpr hmem) (by simp [State.persist, BatchPc.persisted,
        hpersisted])
    · obtain hmem | hmem := List.mem_append.mp hmem
      · exact hother .succeeded (by decide) hmem
      · rw [hlost] at hmem
        exact hother .lost (by decide) hmem
  refine ⟨?_, fun hfinished => absurd hfinished hunfinished, ?_, h.readable⟩
  · rw [hfailures]
    have hplaces : ∀ p, p ≠ .batch → t ∉ (s.persist o batch).tickets p := by
      intro p hp
      cases p with
      | batch => exact absurd rfl hp
      | lost =>
          have hlost : (s.persist o batch).lost = s.lost := if_pos hreached
          rw [State.tickets, hlost]
          exact hother .lost hp
      | _ => exact hother _ hp
    exact .of_absent (fun p hp ht => absurd ht hp) (fun e he ht => absurd ht he) hplaces
      (fun e he => (List.not_mem_nil he).elim) hnext
  · rw [hfailures]
    obtain ⟨e, he, het⟩ := List.mem_map.mp ht
    have hold := hfit e (failed_subset_runPersist o batch s.db he) het
    have hmax : kMaxRetries.toInt = 3 := rfl
    have hcounted := hold.failures
    have hretries := hold.le_max
    omega

/-- The ticket does not fail in this batch. -/
theorem bounded_persist_other (h : Bounded t s) {batch : List Entry}
    (hpc : s.batch = .inFlight batch) {o : BatchOutcome}
    (ht : t ∉ (runPersist o batch s.db).failed.map Entry.ticket) :
    Bounded t (s.persist o batch) := by
  have hfailures : (s.persist o batch).failures t = s.failures t := by
    rw [failures_persist, List.count_eq_zero.mpr ht, Nat.add_zero]
  have hstep : Step (fun _ => []) s (.persist o) (s.persist o batch) := .persist hpc o
  have hbatch : t ∈ batch.map Entry.ticket → s.failures t ≤ 3 := by
    intro hmem
    obtain ⟨e, he, het⟩ := List.mem_map.mp hmem
    have hfit := h.way.untried e (by rw [hpc]; exact he) het
    have hmax : kMaxRetries.toInt = 3 := rfl
    have hcounted := hfit.failures
    have hretries := hfit.le_max
    omega
  refine ⟨?_, ?_, ?_, h.readable⟩
  · rw [hfailures]
    exact h.way.step (carries_fit t _) hstep fun _ henqueue => nomatch henqueue
  · rw [hfailures]
    intro hfinished
    obtain hmem | hmem := List.mem_append.mp hfinished
    · refine hbatch ?_
      obtain ⟨e, he, het⟩ := List.mem_map.mp hmem
      cases hreached : o.pool.reached with
      | false =>
          simp [State.persist, BatchPc.persisted, runPersist_of_not_reached hreached] at he
      | true =>
          exact List.mem_map.mpr ⟨e, (runPersist_perm hreached batch s.db).subset
            (List.mem_append_right _ he), het⟩
    · obtain hmem | hmem := List.mem_append.mp hmem
      · exact h.finished (List.mem_append_right _ (List.mem_append_left _ hmem))
      · cases hreached : o.pool.reached with
        | false =>
            have hlost : (s.persist o batch).lost = s.lost ++ batch := by
              simp [State.persist, hreached]
            rw [hlost, List.map_append] at hmem
            obtain hmem | hmem := List.mem_append.mp hmem
            · exact h.finished (List.mem_append_right _ (List.mem_append_right _ hmem))
            · exact hbatch hmem
        | true =>
            have hlost : (s.persist o batch).lost = s.lost := if_pos hreached
            rw [hlost] at hmem
            exact h.finished (List.mem_append_right _ (List.mem_append_right _ hmem))
  · rw [hfailures]
    exact h.bound

theorem bounded_persist (hone : OneCopy s) (h : Bounded t s) {batch : List Entry}
    (hpc : s.batch = .inFlight batch) (o : BatchOutcome) : Bounded t (s.persist o batch) := by
  by_cases ht : t ∈ (runPersist o batch s.db).failed.map Entry.ticket
  · cases hreached : o.pool.reached with
    | false => simp [runPersist_of_not_reached hreached] at ht
    | true => exact bounded_persist_failed hone h hpc hreached ht
  · exact bounded_persist_other h hpc ht

/-- Tickets that were never given out have never failed. -/
def FailuresIssued (s : State) : Prop := ∀ u ∈ s.failedBatches, u < s.accepted.length

theorem accepted_step (hstep : Step hash s a s') (ha : ∀ text, a ≠ .enqueue text) :
    s'.accepted = s.accepted := by
  by_cases hpop : ∃ i score, a = .pop i score
  · obtain ⟨i, score, rfl⟩ := hpop
    cases hstep
    exact (histories_receive _ _ _ _).1
  · exact (histories_step hstep ha fun i score h => hpop ⟨i, score, h⟩).1

theorem failuresIssued_step (hone : OneCopy s) (h : FailuresIssued s) (hstep : Step hash s a s') :
    FailuresIssued s' := by
  by_cases hpersist : ∃ o, a = .persist o
  · obtain ⟨o, rfl⟩ := hpersist
    cases hstep with
    | @persist batch hpc o =>
        intro u hu
        obtain hold | hnew := List.mem_append.mp hu
        · exact h u hold
        · obtain ⟨e, he, rfl⟩ := List.mem_map.mp hnew
          have hmem : e.ticket ∈ s.tickets .batch := by
            simp only [State.tickets, hpc, BatchPc.entries]
            exact List.mem_map_of_mem (failed_subset_runPersist o batch s.db he)
          exact hone.lt_of_mem hmem
  · have hsame := failedBatches_step hstep fun o ho => hpersist ⟨o, ho⟩
    by_cases henqueue : ∃ text, a = .enqueue text
    · obtain ⟨text, rfl⟩ := henqueue
      cases hstep
      intro u hu
      have hlt := h u hu
      simp only [State.enqueue, List.length_append, List.length_singleton]
      omega
    · intro u hu
      rw [accepted_step hstep fun text ht => henqueue ⟨text, ht⟩]
      exact h u (hsame ▸ hu)

/-- The ticket is given out in this step. -/
theorem bounded_enqueue_new (hone : OneCopy s) (hissued : FailuresIssued s) {text : Bytes}
    (htracked : Tracked s.accepted.length (s.enqueue text)) :
    Bounded s.accepted.length (s.enqueue text) := by
  have habsent : ∀ p, s.accepted.length ∉ s.tickets p := fun p hp =>
    Nat.lt_irrefl _ (hone.lt_of_mem hp)
  have hnever : s.failures s.accepted.length = 0 :=
    List.count_eq_zero.mpr fun hmem => Nat.lt_irrefl _ (hissued _ hmem)
  obtain ⟨j, htext, hid, hsafe, hretries⟩ := htracked
  have htext' : text = toJson j := by simpa [State.enqueue] using htext
  have hbefore : OnTheWay s.accepted.length 0 s := by
    refine .of_absent (fun p hp ht => absurd ht hp) (fun e he ht => absurd ht he)
      (fun p _ => habsent p) ?_ ?_
    · intro e he ht
      refine absurd ?_ (habsent .batch)
      rw [State.tickets, ← ht]
      cases hpc : s.batch <;> simp only [hpc, BatchPc.untried, List.not_mem_nil] at he
      exact List.mem_map_of_mem he
    · intro e he ht
      refine absurd ?_ (habsent .batch)
      rw [State.tickets, ← ht]
      cases hpc : s.batch <;> simp only [hpc, BatchPc.failed, List.not_mem_nil] at he
      exact List.mem_map_of_mem (List.mem_append_left _ he)
  have hstep : Step (fun _ => []) s (.enqueue text) (s.enqueue text) := .enqueue text
  have hfailures : (s.enqueue text).failures s.accepted.length = 0 := hnever
  refine ⟨?_, fun _ => by omega, by omega, habsent .discarded⟩
  rw [hfailures]
  refine hbefore.step (carries_fit _ 0) hstep fun text' henqueue _ => ?_
  cases henqueue
  have hmax : kMaxRetries.toInt = 3 := rfl
  have hcounter : j.retries.toInt = 0 := by rw [hretries]; rfl
  exact ⟨j, htext', hid, hsafe, by omega, by omega, by omega⟩

/-- A worker that pops the ticket can decode its text. -/
theorem notMem_discarded_step (h : Bounded t s) (hstep : Step hash s a s')
    (ha : ∀ text, a ≠ .enqueue text) : t ∉ s'.tickets .discarded := by
  by_cases hpop : ∃ i score, a = .pop i score
  · obtain ⟨i, score, rfl⟩ := hpop
    cases hstep with
    | @pop i p rest hpc hpending score =>
        obtain ⟨-, ⟨hjob, -, hdiscarded⟩ | ⟨-, -, hdiscarded⟩⟩ :=
          histories_receive { s with pending := rest } i p score
        · rw [State.tickets, hdiscarded, List.map_append]
          intro hmem
          obtain hold | hnew := List.mem_append.mp hmem
          · exact h.readable hold
          · have ht : p.ticket = t := (List.mem_singleton.mp hnew).symm
            obtain ⟨j, htext, hfit⟩ := h.way.pending p (hpending ▸ List.mem_cons_self) ht
            rw [htext, fromJson_toJson hfit.jobId] at hjob
            cases hjob
        · rw [State.tickets, hdiscarded]
          exact h.readable
  · rw [State.tickets, (histories_step hstep ha fun i score h => hpop ⟨i, score, h⟩).2.2]
    exact h.readable

theorem bounded_step (hone : OneCopy s) (hissued : FailuresIssued s)
    (h : Tracked t s → Bounded t s) (hstep : Step hash s a s') : Tracked t s' → Bounded t s' := by
  intro htracked
  by_cases hpersist : ∃ o, a = .persist o
  · obtain ⟨o, rfl⟩ := hpersist
    cases hstep with
    | persist hpc o => exact bounded_persist hone (h htracked) hpc o
  · have hbatches := failedBatches_step hstep fun o ho => hpersist ⟨o, ho⟩
    have hfailures : s'.failures t = s.failures t := congrArg (List.count t) hbatches
    have hfinished := finished_step hstep fun o ho => hpersist ⟨o, ho⟩
    by_cases henqueue : ∃ text, a = .enqueue text
    · obtain ⟨text, rfl⟩ := henqueue
      have hs' : s' = s.enqueue text := by cases hstep; rfl
      subst hs'
      by_cases hnew : t = s.accepted.length
      · subst hnew
        exact bounded_enqueue_new hone hissued htracked
      · obtain ⟨j, htext, hj⟩ := htracked
        have hold : s.accepted[t]? = some (toJson j) := by
          have hlt : t < s.accepted.length := by
            have hlength : t < (s.accepted ++ [text]).length :=
              (List.getElem?_eq_some_iff.mp htext).1
            rw [List.length_append, List.length_singleton] at hlength
            omega
          simpa [State.enqueue, List.getElem?_append_left hlt] using htext
        have hbounded := h ⟨j, hold, hj⟩
        refine ⟨?_, fun hmem => hbounded.finished (hfinished hmem), hbounded.bound,
          hbounded.readable⟩
        refine hbounded.way.step (carries_fit t _) hstep fun text' _ hticket => ?_
        exact absurd hticket.symm hnew
    · have hsame := accepted_step hstep fun text ht => henqueue ⟨text, ht⟩
      have hbounded := h (by rwa [Tracked, hsame] at htracked)
      refine ⟨?_, ?_, ?_, notMem_discarded_step hbounded hstep fun text ht => henqueue ⟨text, ht⟩⟩
      · rw [hfailures]
        exact hbounded.way.step (carries_fit t _) hstep fun text ht => absurd ⟨text, ht⟩ henqueue
      · rw [hfailures]
        exact fun hmem => hbounded.finished (hfinished hmem)
      · rw [hfailures]
        exact hbounded.bound

end Step

/-! ### Whole runs -/

theorem bounded_invariant (hash : Bytes → Bytes) (guard : State → Action → Prop) (t : Nat) :
    (worker hash).Invariant guard fun s =>
      (OneCopy s ∧ FailuresIssued s) ∧ (Tracked t s → Bounded t s) := by
  have hknown : (worker hash).Invariant guard fun s => OneCopy s ∧ FailuresIssued s :=
    (oneCopy_invariant hash guard).using (fun _ hu => (List.not_mem_nil hu).elim)
      fun hone h _ hstep => failuresIssued_step hone h (step_of_step? hstep)
  refine hknown.using ?_ fun hknown h _ hstep =>
    bounded_step hknown.1 hknown.2 h (step_of_step? hstep)
  rintro ⟨j, htext, -⟩
  cases htext

/-- Where a job can be after its last failure. -/
theorem filed_of_failures_eq_four {s : State} {t : Nat} (hone : OneCopy s)
    (hissued : FailuresIssued s) (hbounded : Bounded t s) (hfour : s.failures t = 4) :
    t ∈ s.tickets .failedQueue ∨ t ∈ s.tickets .spool ∨
      ∃ e ∈ s.batch.failed, e.ticket = t ∧ e.job.retries = kMaxRetries := by
  have hmem : t ∈ s.failedBatches :=
    List.count_pos_iff.mp (by change 0 < s.failures t; omega)
  have hcopies : s.copies t = 1 := by rw [hone t, if_pos (hissued t hmem)]
  have hmax : kMaxRetries.toInt = 3 := rfl
  have hunfit : ∀ j, ¬ Fit (s.failures t) 0 j := by
    intro j hfit
    have hcounted := hfit.failures
    have hretries := hfit.le_max
    omega
  have hunfinished : t ∉ s.finished := by
    intro hfinished
    have hle := hbounded.finished hfinished
    omega
  obtain ⟨p, hp, -⟩ := Ledger.existsUnique_of_copies_eq_one hcopies
  cases p with
  | failedQueue => exact Or.inl hp
  | spool => exact Or.inr (Or.inl hp)
  | pending =>
      obtain ⟨payload, hpayload, ht⟩ := List.mem_map.mp hp
      obtain ⟨j, -, hfit⟩ := hbounded.way.pending payload hpayload ht
      exact absurd hfit (hunfit j)
  | worker i =>
      obtain ⟨e, he, ht⟩ := List.mem_map.mp hp
      exact absurd (hbounded.way.held i e he ht) (hunfit e.job)
  | batchQueue =>
      obtain ⟨e, he, ht⟩ := List.mem_map.mp hp
      exact absurd (hbounded.way.batchQueue e he ht) (hunfit e.job)
  | drain =>
      obtain ⟨e, he, ht⟩ := List.mem_map.mp hp
      exact absurd (hbounded.way.rest e he ht) (hunfit e.job)
  | succeeded =>
      exact absurd (List.mem_append_right _ (List.mem_append_left _ hp)) hunfinished
  | lost =>
      exact absurd (List.mem_append_right _ (List.mem_append_right _ hp)) hunfinished
  | discarded => exact absurd hp hbounded.readable
  | batch =>
      obtain ⟨e, he, ht⟩ := List.mem_map.mp hp
      cases hpc : s.batch with
      | inFlight batch =>
          rw [hpc] at he
          have hfit := hbounded.way.untried e (by rw [hpc]; exact he) ht
          exact absurd hfit (hunfit e.job)
      | settling failed persisted =>
          rw [hpc] at he
          obtain hfailed | hpersisted := List.mem_append.mp he
          · refine Or.inr (Or.inr ⟨e, hfailed, ht, ?_⟩)
            have hfit := hbounded.way.failed e (by rw [hpc]; exact hfailed) ht
            have hcounted := hfit.failures
            have hretries := hfit.le_max
            exact Int32.toInt_inj.mp (by push_cast at hcounted; omega)
          · have hdone : t ∈ s.batch.persisted.map Entry.ticket := by
              rw [hpc]
              exact List.mem_map.mpr ⟨e, hpersisted, ht⟩
            exact absurd (List.mem_append_left _ hdone) hunfinished
      | _ =>
          rw [hpc] at he
          cases he

/-- A batch that fails at `BEGIN`, and the job goes back to the pending list. -/
def failingRound : List Action :=
  [.testRunning 0, .pop 0 none, .push 0, .testBatch, .takeBatch, .persist { begins := false },
    .settleFailed {}, .settled]

/-- A student who gives `retries` as name, and `0` as exam number. -/
def poisonJob : SubmissionJob :=
  { jobId := str "0f", studentName := str "retries", examNumber := str "0" }

end ExamVan.Queue
