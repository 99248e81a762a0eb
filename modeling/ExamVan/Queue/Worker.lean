import Mathlib.Data.Fintype.Pi
import Mathlib.Tactic.DeriveFintype
import ExamVan.Lib.Ledger
import ExamVan.Queue.Persist

/-!
# The worker

Eight threads move jobs from the pending list into `batch_q_`. One thread takes all of `batch_q_`,
persists it in a transaction, and settles the outcome: a failed job goes back to the pending list or
into the failed queue, a persisted one gets its result. `stop` joins the batch thread first, then
the workers, and settles what they have left behind.

An action names the thread that moves and what Redis, the database or the scorer answers to it.
-/

namespace ExamVan.Queue

open ByteString

instance : NeZero kWorkerCount := ⟨by decide⟩

/-! ### Results -/

/-- What `identity_fingerprint` hashes. -/
def fingerprintText (m : StringMap) : Bytes :=
  m.entries.flatMap fun kv => kv.1 ++ 0x1f :: (kv.2 ++ [0x1e])

structure JobResult where
  jobId : Bytes
  examId : Int32
  macAddress : Bytes
  identityData : Bytes
  identityHash : Bytes
  success : Bool
  score : Option Bytes
  message : Bytes
  processedAt : Bytes

/-- A result as `run_batch`, `checked_requeue` and `stop` fill it in; `hash` is `std::hash` as
`%016zx` prints it. -/
def Entry.result (hash : Bytes → Bytes) (e : Entry) (success : Bool) (message now : Bytes) :
    JobResult :=
  { jobId := e.job.jobId
    examId := e.job.examId
    macAddress := e.job.macAddress
    identityData := mapToJson e.job.identityData
    identityHash := hash (fingerprintText e.job.identityData)
    success := success
    score := e.score
    message := message
    processedAt := now }

/-! ### Threads -/

/-- `run_worker`: before the loop's test, in `dequeue`, or with a scored job in hand. -/
inductive WorkerPc
  | atLoop
  | popping
  | holding (e : Entry)
  | exited
  deriving DecidableEq

/-- `run_batch`: before the loop's test, in `wait_for`, with a batch, or settling its two lists. -/
inductive BatchPc
  | atLoop
  | waiting
  | inFlight (batch : List Entry)
  | settling (failed persisted : List Entry)
  | exited

/-- `stop`: not called, in one of its two joins, or draining what was left. -/
inductive StopPc
  | notCalled
  | joiningBatch
  | joiningWorkers
  | draining (rest : List Entry)
  | done

/-- The worker, Redis and the database. The lists are in the order in which `BRPOP` would read
them. The last five fields are histories that no step reads. -/
structure State where
  pending : List Payload
  failedQueue : List Payload
  spool : List Payload
  results : List (Nat × JobResult)
  db : Database
  workers : Fin kWorkerCount → WorkerPc
  batchQueue : List Entry
  batch : BatchPc
  stopping : StopPc
  running : Bool
  /-- the texts that entered the queue, by ticket -/
  accepted : List Bytes
  /-- tickets of jobs that a worker decoded -/
  taken : List Nat
  /-- what a worker popped and could not decode -/
  discarded : List Payload
  /-- tickets of the jobs that `run_batch` put into `failed`, once for each batch -/
  failedBatches : List Nat
  /-- jobs that were in a batch and in neither of its lists -/
  lost : List Entry

/-- After `start`. -/
def State.started : State :=
  { pending := []
    failedQueue := []
    spool := []
    results := []
    db := ⟨fun _ => none, []⟩
    workers := fun _ => .atLoop
    batchQueue := []
    batch := .atLoop
    stopping := .notCalled
    running := true
    accepted := []
    taken := []
    discarded := []
    failedBatches := []
    lost := [] }

/-! ### Queue operations -/

/-- Whether each `LPUSH` for a job that is settled succeeds, and the time its result is given. -/
structure SettleOutcome where
  requeued : Bool := true
  failedPushed : Bool := true
  now : Bytes := []

/-- `LPUSH` of a text that enters the queue for the first time. -/
def State.enqueue (s : State) (text : Bytes) : State :=
  { s with
    pending := s.pending ++ [⟨s.accepted.length, text⟩]
    accepted := s.accepted ++ [text] }

def State.setWorker (s : State) (i : Fin kWorkerCount) (pc : WorkerPc) : State :=
  { s with workers := Function.update s.workers i pc }

@[simp]
theorem workers_setWorker_self (s : State) (i : Fin kWorkerCount) (pc : WorkerPc) :
    (s.setWorker i pc).workers i = pc := by
  simp [State.setWorker]

theorem workers_setWorker_of_ne {i j : Fin kWorkerCount} (h : j ≠ i) (s : State) (pc : WorkerPc) :
    (s.setWorker i pc).workers j = s.workers j := by
  simp [State.setWorker, h]

/-- `dequeue` and the scorer, on an element that `BRPOP` returned. -/
def State.receive (s : State) (i : Fin kWorkerCount) (p : Payload) (score : Option Bytes) : State :=
  match fromJson p.text with
  | none => { s.setWorker i .atLoop with discarded := s.discarded ++ [p] }
  | some job =>
      { s.setWorker i (.holding ⟨p.ticket, job, score⟩) with taken := s.taken ++ [p.ticket] }

def Entry.payload (e : Entry) : Payload := ⟨e.ticket, toJson e.job⟩

/-- `push_failed`: the failed queue, or the spool file if Redis refuses. -/
def State.pushFailed (s : State) (io : SettleOutcome) (e : Entry) : State :=
  if io.failedPushed then { s with failedQueue := s.failedQueue ++ [e.payload] }
  else { s with spool := s.spool ++ [e.payload] }

def State.storeResult (s : State) (ticket : Nat) (r : JobResult) : State :=
  { s with results := s.results ++ [(ticket, r)] }

/-- `job.retries++`. -/
def Entry.retried (e : Entry) : Entry :=
  { e with job := { e.job with retries := e.job.retries + 1 } }

/-- `checked_requeue`. -/
def State.checkedRequeue (hash : Bytes → Bytes) (s : State) (io : SettleOutcome) (e : Entry) :
    State :=
  if io.requeued then { s with pending := s.pending ++ [e.payload] }
  else
    (s.pushFailed io e).storeResult e.ticket (e.result hash false
      (str "Gagal mengantar ulang jawaban (Redis tidak tersedia)") io.now)

/-- The body of the loops over failed jobs, in `run_batch` and in the final drain. -/
def State.settleFailed (hash : Bytes → Bytes) (s : State) (io : SettleOutcome) (e : Entry) :
    State :=
  if e.job.retries < kMaxRetries then s.checkedRequeue hash io e.retried
  else
    (s.pushFailed io e).storeResult e.ticket
      (e.result hash false (str "Gagal menyimpan jawaban") io.now)

/-- The transaction of a batch. If the pool does not call the function, both lists stay empty. -/
def State.persist (s : State) (o : BatchOutcome) (batch : List Entry) : State :=
  let r := runPersist o batch s.db
  { s with
    db := r.db
    batch := .settling r.failed r.persisted
    failedBatches := s.failedBatches ++ r.failed.map Entry.ticket
    lost := if o.pool.reached then s.lost else s.lost ++ batch }

/-! ### Steps -/

inductive Action
  /-- a text enters the queue -/
  | enqueue (text : Bytes)
  /-- `while(running_)` in worker `i` -/
  | testRunning (i : Fin kWorkerCount)
  /-- `BRPOP` times out or fails -/
  | popNothing (i : Fin kWorkerCount)
  /-- `BRPOP` returns an element, which is decoded and scored -/
  | pop (i : Fin kWorkerCount) (score : Option Bytes)
  /-- `batch_q_.push` -/
  | push (i : Fin kWorkerCount)
  /-- `while(running_ || pending()>0)` -/
  | testBatch
  /-- `wait_for` returns, and `batch_q_` is emptied -/
  | takeBatch
  | persist (o : BatchOutcome)
  /-- the next job of `failed` -/
  | settleFailed (io : SettleOutcome)
  /-- the next job of `persisted` -/
  | settlePersisted (now : Bytes)
  | settled
  /-- `running_=false` in `stop` -/
  | stop
  | joinBatch
  /-- the last join, after which `batch_q_` is emptied -/
  | joinWorkers
  /-- the next job of the final drain -/
  | drain (io : SettleOutcome)
  | drained

def State.step? (hash : Bytes → Bytes) (s : State) : Action → Option State
  | .enqueue text => some (s.enqueue text)
  | .testRunning i =>
      match s.workers i with
      | .atLoop => some (s.setWorker i (if s.running then .popping else .exited))
      | _ => none
  | .popNothing i =>
      match s.workers i with
      | .popping => some (s.setWorker i .atLoop)
      | _ => none
  | .pop i score =>
      match s.workers i, s.pending with
      | .popping, p :: rest => some ({ s with pending := rest }.receive i p score)
      | _, _ => none
  | .push i =>
      match s.workers i with
      | .holding e => some { s.setWorker i .atLoop with batchQueue := s.batchQueue ++ [e] }
      | _ => none
  | .testBatch =>
      match s.batch with
      | .atLoop =>
          if s.running ∨ s.batchQueue ≠ [] then some { s with batch := .waiting }
          else some { s with batch := .exited }
      | _ => none
  | .takeBatch =>
      match s.batch with
      | .waiting =>
          if s.batchQueue = [] then some { s with batch := .atLoop }
          else some { s with batch := .inFlight s.batchQueue, batchQueue := [] }
      | _ => none
  | .persist o =>
      match s.batch with
      | .inFlight batch => some (s.persist o batch)
      | _ => none
  | .settleFailed io =>
      match s.batch with
      | .settling (e :: failed) persisted =>
          some ({ s with batch := .settling failed persisted }.settleFailed hash io e)
      | _ => none
  | .settlePersisted now =>
      match s.batch with
      | .settling [] (e :: persisted) =>
          some ({ s with batch := .settling [] persisted }.storeResult e.ticket
            (e.result hash true (str "ok") now))
      | _ => none
  | .settled =>
      match s.batch with
      | .settling [] [] => some { s with batch := .atLoop }
      | _ => none
  | .stop =>
      match s.stopping with
      | .notCalled => some { s with running := false, stopping := .joiningBatch }
      | _ => none
  | .joinBatch =>
      match s.stopping, s.batch with
      | .joiningBatch, .exited => some { s with stopping := .joiningWorkers }
      | _, _ => none
  | .joinWorkers =>
      match s.stopping with
      | .joiningWorkers =>
          if ∀ i, s.workers i = .exited then
            some { s with stopping := .draining s.batchQueue, batchQueue := [] }
          else none
      | _ => none
  | .drain io =>
      match s.stopping with
      | .draining (e :: rest) =>
          some ({ s with stopping := .draining rest }.settleFailed hash io e)
      | _ => none
  | .drained =>
      match s.stopping with
      | .draining [] => some { s with stopping := .done }
      | _ => none

/-- What each action needs and does. -/
inductive Step (hash : Bytes → Bytes) (s : State) : Action → State → Prop
  | enqueue (text : Bytes) : Step hash s (.enqueue text) (s.enqueue text)
  | testRunning {i : Fin kWorkerCount} (hpc : s.workers i = .atLoop) :
      Step hash s (.testRunning i) (s.setWorker i (if s.running then .popping else .exited))
  | popNothing {i : Fin kWorkerCount} (hpc : s.workers i = .popping) :
      Step hash s (.popNothing i) (s.setWorker i .atLoop)
  | pop {i : Fin kWorkerCount} {p : Payload} {rest : List Payload} (hpc : s.workers i = .popping)
      (hpending : s.pending = p :: rest) (score : Option Bytes) :
      Step hash s (.pop i score) ({ s with pending := rest }.receive i p score)
  | push {i : Fin kWorkerCount} {e : Entry} (hpc : s.workers i = .holding e) :
      Step hash s (.push i) { s.setWorker i .atLoop with batchQueue := s.batchQueue ++ [e] }
  | testBatch {pc : BatchPc} (hpc : s.batch = .atLoop) (hnext : pc = .waiting ∨ pc = .exited) :
      Step hash s .testBatch { s with batch := pc }
  | takeNothing (hpc : s.batch = .waiting) : Step hash s .takeBatch { s with batch := .atLoop }
  | takeBatch (hpc : s.batch = .waiting) :
      Step hash s .takeBatch { s with batch := .inFlight s.batchQueue, batchQueue := [] }
  | persist {batch : List Entry} (hpc : s.batch = .inFlight batch) (o : BatchOutcome) :
      Step hash s (.persist o) (s.persist o batch)
  | settleFailed {e : Entry} {failed persisted : List Entry}
      (hpc : s.batch = .settling (e :: failed) persisted) (io : SettleOutcome) :
      Step hash s (.settleFailed io)
        ({ s with batch := .settling failed persisted }.settleFailed hash io e)
  | settlePersisted {e : Entry} {persisted : List Entry}
      (hpc : s.batch = .settling [] (e :: persisted)) (now : Bytes) :
      Step hash s (.settlePersisted now)
        ({ s with batch := .settling [] persisted }.storeResult e.ticket
          (e.result hash true (str "ok") now))
  | settled (hpc : s.batch = .settling [] []) : Step hash s .settled { s with batch := .atLoop }
  | stop (hpc : s.stopping = .notCalled) :
      Step hash s .stop { s with running := false, stopping := .joiningBatch }
  | joinBatch (hpc : s.stopping = .joiningBatch) (hbatch : s.batch = .exited) :
      Step hash s .joinBatch { s with stopping := .joiningWorkers }
  | joinWorkers (hpc : s.stopping = .joiningWorkers) (hworkers : ∀ i, s.workers i = .exited) :
      Step hash s .joinWorkers { s with stopping := .draining s.batchQueue, batchQueue := [] }
  | drain {e : Entry} {rest : List Entry} (hpc : s.stopping = .draining (e :: rest))
      (io : SettleOutcome) :
      Step hash s (.drain io) ({ s with stopping := .draining rest }.settleFailed hash io e)
  | drained (hpc : s.stopping = .draining []) :
      Step hash s .drained { s with stopping := .done }

theorem step_of_step? {hash : Bytes → Bytes} {s s' : State} {a : Action}
    (h : s.step? hash a = some s') : Step hash s a s' := by
  cases a with
  | enqueue text =>
      cases h
      exact .enqueue text
  | testRunning i =>
      simp only [State.step?] at h
      split at h
      · next hpc =>
          cases h
          exact .testRunning hpc
      · cases h
  | popNothing i =>
      simp only [State.step?] at h
      split at h
      · next hpc =>
          cases h
          exact .popNothing hpc
      · cases h
  | pop i score =>
      simp only [State.step?] at h
      split at h
      · next hpc hpending =>
          cases h
          exact .pop hpc hpending score
      · cases h
  | push i =>
      simp only [State.step?] at h
      split at h
      · next hpc =>
          cases h
          exact .push hpc
      · cases h
  | testBatch =>
      simp only [State.step?] at h
      split at h
      · next hpc =>
          split at h <;> cases h
          · exact .testBatch hpc (Or.inl rfl)
          · exact .testBatch hpc (Or.inr rfl)
      · cases h
  | takeBatch =>
      simp only [State.step?] at h
      split at h
      · next hpc =>
          split at h <;> cases h
          · exact .takeNothing hpc
          · exact .takeBatch hpc
      · cases h
  | persist o =>
      simp only [State.step?] at h
      split at h
      · next hpc =>
          cases h
          exact .persist hpc o
      · cases h
  | settleFailed io =>
      simp only [State.step?] at h
      split at h
      · next hpc =>
          cases h
          exact .settleFailed hpc io
      · cases h
  | settlePersisted now =>
      simp only [State.step?] at h
      split at h
      · next hpc =>
          cases h
          exact .settlePersisted hpc now
      · cases h
  | settled =>
      simp only [State.step?] at h
      split at h
      · next hpc =>
          cases h
          exact .settled hpc
      · cases h
  | stop =>
      simp only [State.step?] at h
      split at h
      · next hpc =>
          cases h
          exact .stop hpc
      · cases h
  | joinBatch =>
      simp only [State.step?] at h
      split at h
      · next hpc hbatch =>
          cases h
          exact .joinBatch hpc hbatch
      · cases h
  | joinWorkers =>
      simp only [State.step?] at h
      split at h
      · next hpc =>
          split at h
          · next hworkers =>
              cases h
              exact .joinWorkers hpc hworkers
          · cases h
      · cases h
  | drain io =>
      simp only [State.step?] at h
      split at h
      · next hpc =>
          cases h
          exact .drain hpc io
      · cases h
  | drained =>
      simp only [State.step?] at h
      split at h
      · next hpc =>
          cases h
          exact .drained hpc
      · cases h

/-- Where `settleFailed` leaves a job: back in the pending list with a retry more, or in the failed
queue or the spool file with a result that is no success. -/
theorem settleFailed_cases (hash : Bytes → Bytes) (s : State) (io : SettleOutcome) (e : Entry) :
    (s.settleFailed hash io e =
        { s with pending := s.pending ++ [e.retried.payload] } ∧ e.job.retries < kMaxRetries) ∨
      ∃ (e' : Entry) (r : JobResult), e'.ticket = e.ticket ∧ r.success = false ∧
        (s.settleFailed hash io e =
            { s with
              failedQueue := s.failedQueue ++ [e'.payload]
              results := s.results ++ [(e.ticket, r)] } ∨
          s.settleFailed hash io e =
            { s with
              spool := s.spool ++ [e'.payload]
              results := s.results ++ [(e.ticket, r)] }) := by
  unfold State.settleFailed State.checkedRequeue State.pushFailed State.storeResult
  by_cases hretry : e.job.retries < kMaxRetries
  · rw [if_pos hretry]
    cases io.requeued with
    | true => exact Or.inl ⟨rfl, hretry⟩
    | false =>
        refine Or.inr ⟨e.retried, e.retried.result hash false
          (str "Gagal mengantar ulang jawaban (Redis tidak tersedia)") io.now, rfl, rfl, ?_⟩
        cases io.failedPushed with
        | true => exact Or.inl rfl
        | false => exact Or.inr rfl
  · rw [if_neg hretry]
    refine Or.inr
      ⟨e, e.result hash false (str "Gagal menyimpan jawaban") io.now, rfl, rfl, ?_⟩
    cases io.failedPushed with
    | true => exact Or.inl rfl
    | false => exact Or.inr rfl

/-- The worker from `start` on. -/
def worker (hash : Bytes → Bytes) : System State Action where
  initial := .started
  step? := State.step? hash

/-! ### Invariants of the jobs on their way -/

def WorkerPc.held : WorkerPc → List Entry
  | .holding e => [e]
  | _ => []

/-- The batch before its transaction. -/
def BatchPc.untried : BatchPc → List Entry
  | .inFlight batch => batch
  | _ => []

/-- The failed jobs that are still to be settled. -/
def BatchPc.failed : BatchPc → List Entry
  | .settling failed _ => failed
  | _ => []

/-- The persisted jobs that have no result yet. -/
def BatchPc.persisted : BatchPc → List Entry
  | .settling _ persisted => persisted
  | _ => []

def StopPc.rest : StopPc → List Entry
  | .draining rest => rest
  | _ => []

/-- `P` holds of what is in the pending list, `W` of the jobs that wait for a transaction, and `F`
of those that have failed in one and are not settled. -/
structure Throughout (P : Payload → Prop) (W F : Entry → Prop) (s : State) : Prop where
  pending : ∀ p ∈ s.pending, P p
  held : ∀ i, ∀ e ∈ (s.workers i).held, W e
  batchQueue : ∀ e ∈ s.batchQueue, W e
  untried : ∀ e ∈ s.batch.untried, W e
  failed : ∀ e ∈ s.batch.failed, F e
  rest : ∀ e ∈ s.stopping.rest, W e

/-- What carries the three properties along the way of a job. -/
structure Carries (P : Payload → Prop) (W F : Entry → Prop) : Prop where
  decode : ∀ {p job} score, P p → fromJson p.text = some job → W ⟨p.ticket, job, score⟩
  fail : ∀ {e}, W e → F e
  requeue : ∀ {e}, F e → e.job.retries < kMaxRetries → P e.retried.payload
  drain : ∀ {e}, W e → e.job.retries < kMaxRetries → P e.retried.payload

section Throughout

variable {hash : Bytes → Bytes} {s s' : State} {a : Action}
variable {P : Payload → Prop} {W F : Entry → Prop}

theorem Throughout.started : Throughout P W F State.started :=
  ⟨fun _ h => (List.not_mem_nil h).elim, fun _ _ h => (List.not_mem_nil h).elim,
    fun _ h => (List.not_mem_nil h).elim, fun _ h => (List.not_mem_nil h).elim,
    fun _ h => (List.not_mem_nil h).elim, fun _ h => (List.not_mem_nil h).elim⟩

theorem held_setWorker {i : Fin kWorkerCount} {pc : WorkerPc}
    (h : ∀ i, ∀ e ∈ (s.workers i).held, W e) (hpc : ∀ e ∈ pc.held, W e) :
    ∀ j, ∀ e ∈ ((s.setWorker i pc).workers j).held, W e := by
  intro j e he
  by_cases hj : j = i
  · subst hj
    rw [workers_setWorker_self] at he
    exact hpc e he
  · rw [workers_setWorker_of_ne hj] at he
    exact h j e he

theorem Throughout.setWorker (h : Throughout P W F s) (i : Fin kWorkerCount) {pc : WorkerPc}
    (hpc : ∀ e ∈ pc.held, W e) : Throughout P W F (s.setWorker i pc) :=
  ⟨h.pending, held_setWorker h.held hpc, h.batchQueue, h.untried, h.failed, h.rest⟩

theorem Throughout.settleFailed (h : Throughout P W F s) {e : Entry}
    (hretry : e.job.retries < kMaxRetries → P e.retried.payload) (io : SettleOutcome) :
    Throughout P W F (s.settleFailed hash io e) := by
  obtain ⟨hs, hlt⟩ | ⟨e', r, -, -, hs | hs⟩ := settleFailed_cases hash s io e
  · rw [hs]
    refine ⟨?_, h.held, h.batchQueue, h.untried, h.failed, h.rest⟩
    intro p hp
    obtain hold | hnew := List.mem_append.mp hp
    · exact h.pending p hold
    · exact List.mem_singleton.mp hnew ▸ hretry hlt
  · rw [hs]
    exact ⟨h.pending, h.held, h.batchQueue, h.untried, h.failed, h.rest⟩
  · rw [hs]
    exact ⟨h.pending, h.held, h.batchQueue, h.untried, h.failed, h.rest⟩

theorem failed_subset_runPersist (o : BatchOutcome) (batch : List Entry) (db : Database) :
    (runPersist o batch db).failed ⊆ batch := by
  cases hreached : o.pool.reached with
  | false =>
      rw [runPersist_of_not_reached hreached]
      exact List.nil_subset _
  | true =>
      intro e he
      exact (runPersist_perm hreached batch db).subset (List.mem_append_left _ he)

theorem Throughout.step (carries : Carries P W F) (h : Throughout P W F s)
    (hstep : Step hash s a s')
    (hnew : ∀ text, a = .enqueue text →
      P ⟨s.accepted.length, text⟩) : Throughout P W F s' := by
  have hnone : ∀ e ∈ ([] : List Entry), W e := fun e he => (List.not_mem_nil he).elim
  have hidle : ∀ e ∈ WorkerPc.atLoop.held, W e := hnone
  cases hstep with
  | enqueue text =>
      refine ⟨?_, h.held, h.batchQueue, h.untried, h.failed, h.rest⟩
      intro p hp
      obtain hold | hadded := List.mem_append.mp hp
      · exact h.pending p hold
      · exact List.mem_singleton.mp hadded ▸ hnew text rfl
  | testRunning hpc =>
      refine h.setWorker _ ?_
      split <;> exact hnone
  | @popNothing i hpc => exact h.setWorker i hidle
  | @pop i p rest hpc hpending score =>
      have hhead : P p := h.pending p (hpending ▸ List.mem_cons_self)
      have hrest : ∀ q ∈ rest, P q := fun q hq => h.pending q (hpending ▸ List.mem_cons_of_mem _ hq)
      have hpopped : Throughout P W F { s with pending := rest } :=
        ⟨hrest, h.held, h.batchQueue, h.untried, h.failed, h.rest⟩
      unfold State.receive
      cases hjob : fromJson p.text with
      | none =>
          have hset := hpopped.setWorker i hidle
          exact ⟨hset.pending, hset.held, hset.batchQueue, hset.untried, hset.failed, hset.rest⟩
      | some job =>
          have hentry : ∀ e ∈ (WorkerPc.holding ⟨p.ticket, job, score⟩).held, W e :=
            fun e he => List.mem_singleton.mp he ▸ carries.decode score hhead hjob
          have hset := hpopped.setWorker i hentry
          exact ⟨hset.pending, hset.held, hset.batchQueue, hset.untried, hset.failed, hset.rest⟩
  | @push i e hpc =>
      have hentry : W e := h.held i e (hpc ▸ List.mem_singleton_self e)
      have hset := h.setWorker i hidle
      refine ⟨hset.pending, hset.held, ?_, hset.untried, hset.failed, hset.rest⟩
      intro e' he'
      obtain hold | hadded := List.mem_append.mp he'
      · exact h.batchQueue e' hold
      · exact List.mem_singleton.mp hadded ▸ hentry
  | testBatch hpc hnext =>
      obtain rfl | rfl := hnext <;>
        exact ⟨h.pending, h.held, h.batchQueue, hnone, fun _ he => (List.not_mem_nil he).elim,
          h.rest⟩
  | takeNothing hpc =>
      exact ⟨h.pending, h.held, h.batchQueue, hnone, fun _ he => (List.not_mem_nil he).elim,
        h.rest⟩
  | takeBatch hpc =>
      exact ⟨h.pending, h.held, hnone, h.batchQueue, fun _ he => (List.not_mem_nil he).elim,
        h.rest⟩
  | @persist batch hpc o =>
      refine ⟨h.pending, h.held, h.batchQueue, hnone, ?_, h.rest⟩
      intro e he
      have hmem := failed_subset_runPersist o batch s.db he
      exact carries.fail (h.untried e (hpc ▸ hmem))
  | @settleFailed e failed persisted hpc io =>
      have hfailed : ∀ e' ∈ e :: failed, F e' := fun e' he' => h.failed e' (hpc ▸ he')
      have hrest : Throughout P W F { s with batch := .settling failed persisted } :=
        ⟨h.pending, h.held, h.batchQueue, hnone, (List.forall_mem_cons.mp hfailed).2, h.rest⟩
      exact hrest.settleFailed (carries.requeue (List.forall_mem_cons.mp hfailed).1) io
  | settlePersisted hpc now =>
      exact ⟨h.pending, h.held, h.batchQueue, hnone, fun _ he => (List.not_mem_nil he).elim,
        h.rest⟩
  | settled hpc =>
      exact ⟨h.pending, h.held, h.batchQueue, hnone, fun _ he => (List.not_mem_nil he).elim,
        h.rest⟩
  | stop hpc => exact ⟨h.pending, h.held, h.batchQueue, h.untried, h.failed, hnone⟩
  | joinBatch hpc hbatch => exact ⟨h.pending, h.held, h.batchQueue, h.untried, h.failed, hnone⟩
  | joinWorkers hpc hworkers =>
      exact ⟨h.pending, h.held, hnone, h.untried, h.failed, h.batchQueue⟩
  | @drain e rest hpc io =>
      have hentries : ∀ e' ∈ e :: rest, W e' := fun e' he' => h.rest e' (hpc ▸ he')
      have hrest : Throughout P W F { s with stopping := .draining rest } :=
        ⟨h.pending, h.held, h.batchQueue, h.untried, h.failed,
          (List.forall_mem_cons.mp hentries).2⟩
      exact hrest.settleFailed (carries.drain (List.forall_mem_cons.mp hentries).1) io
  | drained hpc => exact ⟨h.pending, h.held, h.batchQueue, h.untried, h.failed, hnone⟩

end Throughout

end ExamVan.Queue
