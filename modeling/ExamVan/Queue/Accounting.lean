import ExamVan.Queue.RoundTrip
import ExamVan.Queue.Worker

/-!
# No job is lost or doubled

Every ticket lies in exactly one place after every step, where a batch that the pool's function
never saw, and a text that no worker could decode, count as places too. A decoded job can only end
in the first of these by the step that loses its batch, and never in the second. A job with a
success result has been written unless a COMMIT was acknowledged that committed nothing.
-/

namespace ExamVan.Queue

open ByteString

variable {hash : Bytes → Bytes} {s s' : State} {a : Action}

/-! ### Places -/

inductive Place
  | pending
  | worker (i : Fin kWorkerCount)
  | batchQueue
  | batch
  | drain
  | failedQueue
  | spool
  | succeeded
  | discarded
  | lost
  deriving DecidableEq, Fintype

/-- The jobs of the batch that have not been settled yet. -/
def BatchPc.entries : BatchPc → List Entry
  | .inFlight batch => batch
  | .settling failed persisted => failed ++ persisted
  | _ => []

/-- The tickets of the success results. -/
def State.succeeded (s : State) : List Nat :=
  (s.results.filter fun r => r.2.success).map Prod.fst

def State.tickets (s : State) : Place → List Nat
  | .pending => s.pending.map Payload.ticket
  | .worker i => (s.workers i).held.map Entry.ticket
  | .batchQueue => s.batchQueue.map Entry.ticket
  | .batch => s.batch.entries.map Entry.ticket
  | .drain => s.stopping.rest.map Entry.ticket
  | .failedQueue => s.failedQueue.map Payload.ticket
  | .spool => s.spool.map Payload.ticket
  | .succeeded => s.succeeded
  | .discarded => s.discarded.map Payload.ticket
  | .lost => s.lost.map Entry.ticket

/-- How many copies of a job there are. -/
def State.copies (s : State) (t : Nat) : Nat := Ledger.copies s.tickets t

/-! ### Every step moves tickets -/

/-- A step of worker `i` that neither takes nor leaves a job. -/
theorem moves_setWorker {i : Fin kWorkerCount} {pc : WorkerPc}
    (h : pc.held = (s.workers i).held) : Ledger.Moves s.tickets (s.setWorker i pc).tickets := by
  refine .still fun p => ?_
  cases p with
  | worker j =>
      by_cases hj : j = i
      · subst hj
        simp [State.tickets, h]
      · simp [State.tickets, workers_setWorker_of_ne hj]
  | _ => exact List.Perm.refl _

theorem moves_pop {i : Fin kWorkerCount} {p : Payload} {rest : List Payload}
    (hpc : s.workers i = .popping) (hpending : s.pending = p :: rest) (score : Option Bytes) :
    Ledger.Moves s.tickets ({ s with pending := rest }.receive i p score).tickets := by
  unfold State.receive
  cases hjob : fromJson p.text with
  | none =>
      refine .transfer .pending .discarded [p.ticket] (by decide) ?_ ?_ ?_
      · simp [State.tickets, State.setWorker, hpending]
      · simp [State.tickets]
      · intro q hsource htarget
        cases q with
        | worker j =>
            by_cases hj : j = i
            · subst hj
              simp [State.tickets, State.setWorker, hpc, WorkerPc.held]
            · simp [State.tickets, State.setWorker, Function.update_of_ne hj]
        | pending => exact absurd rfl hsource
        | discarded => exact absurd rfl htarget
        | _ => rfl
  | some job =>
      refine .transfer .pending (.worker i) [p.ticket] (by simp) ?_ ?_ ?_
      · simp [State.tickets, State.setWorker, hpending]
      · simp [State.tickets, State.setWorker, hpc, WorkerPc.held]
      · intro q hsource htarget
        cases q with
        | worker j =>
            have hj : j ≠ i := fun hj => htarget (hj ▸ rfl)
            simp [State.tickets, State.setWorker, Function.update_of_ne hj]
        | pending => exact absurd rfl hsource
        | _ => rfl

theorem moves_push {i : Fin kWorkerCount} {e : Entry} (hpc : s.workers i = .holding e) :
    Ledger.Moves s.tickets
      { s.setWorker i .atLoop with batchQueue := s.batchQueue ++ [e] }.tickets := by
  refine .transfer (.worker i) .batchQueue [e.ticket] (by simp) ?_ ?_ ?_
  · simp [State.tickets, State.setWorker, hpc, WorkerPc.held]
  · simp [State.tickets]
  · intro q hsource htarget
    cases q with
    | worker j =>
        have hj : j ≠ i := fun hj => hsource (hj ▸ rfl)
        simp [State.tickets, State.setWorker, Function.update_of_ne hj]
    | batchQueue => exact absurd rfl htarget
    | _ => rfl

/-- The two lists of a batch, or the list of the lost ones, take over the whole batch. -/
theorem moves_persist {batch : List Entry} (hbatch : s.batch = .inFlight batch)
    (o : BatchOutcome) : Ledger.Moves s.tickets (s.persist o batch).tickets := by
  cases hreached : o.pool.reached with
  | false =>
      have hresult := runPersist_of_not_reached hreached batch s.db
      refine .transfer .batch .lost (batch.map Entry.ticket) (by decide) ?_ ?_ ?_
      · simp [State.tickets, State.persist, hbatch, BatchPc.entries, hresult]
      · simpa [State.tickets, State.persist, hreached] using List.perm_append_comm
      · intro q hsource htarget
        cases q with
        | batch => exact absurd rfl hsource
        | lost => exact absurd rfl htarget
        | _ => rfl
  | true =>
      refine .still fun q => ?_
      cases q with
      | batch =>
          have hperm := (runPersist_perm hreached batch s.db).map Entry.ticket
          simpa [State.tickets, State.persist, hbatch, BatchPc.entries] using hperm
      | lost => simp [State.tickets, State.persist, hreached]
      | _ => exact List.Perm.refl _

theorem succeeded_append_failure {r : JobResult} (h : r.success = false) (t : Nat)
    (results : List (Nat × JobResult)) :
    ((results ++ [(t, r)]).filter fun r => r.2.success).map Prod.fst =
      (results.filter fun r => r.2.success).map Prod.fst := by
  simp [h]

/-- A failed job goes from the place it was taken from to the pending list, the failed queue or the
spool file. -/
theorem moves_settleFailed {before : Place → List Nat} {p : Place} {e : Entry}
    (io : SettleOutcome) (hp : p = .batch ∨ p = .drain)
    (hsource : (before p).Perm (e.ticket :: s.tickets p))
    (hother : ∀ q, q ≠ p → s.tickets q = before q) :
    Ledger.Moves before (s.settleFailed hash io e).tickets := by
  have hpending : Place.pending ≠ p := by rcases hp with rfl | rfl <;> decide
  have hfailed : Place.failedQueue ≠ p := by rcases hp with rfl | rfl <;> decide
  have hspool : Place.spool ≠ p := by rcases hp with rfl | rfl <;> decide
  have hticket : ∀ e' : Entry, e'.ticket = e.ticket → e'.payload.ticket = e.ticket := fun _ h => h
  obtain ⟨h, -⟩ | ⟨e', r, hsame, hfalse, h | h⟩ := settleFailed_cases hash s io e
  · rw [h]
    refine .transfer p .pending [e.ticket] hpending.symm ?_ ?_ ?_
    · rcases hp with rfl | rfl <;> exact hsource
    · rw [← hother _ hpending]
      simp [State.tickets, hticket e.retried rfl]
    · intro q hq htarget
      rw [← hother q hq]
      cases q with
      | pending => exact absurd rfl htarget
      | _ => rfl
  · rw [h]
    refine .transfer p .failedQueue [e.ticket] hfailed.symm ?_ ?_ ?_
    · rcases hp with rfl | rfl <;> exact hsource
    · rw [← hother _ hfailed]
      simp [State.tickets, hticket e' hsame]
    · intro q hq htarget
      rw [← hother q hq]
      cases q with
      | failedQueue => exact absurd rfl htarget
      | succeeded => exact succeeded_append_failure hfalse e.ticket s.results
      | _ => rfl
  · rw [h]
    refine .transfer p .spool [e.ticket] hspool.symm ?_ ?_ ?_
    · rcases hp with rfl | rfl <;> exact hsource
    · rw [← hother _ hspool]
      simp [State.tickets, hticket e' hsame]
    · intro q hq htarget
      rw [← hother q hq]
      cases q with
      | spool => exact absurd rfl htarget
      | succeeded => exact succeeded_append_failure hfalse e.ticket s.results
      | _ => rfl

/-- Every step but the arrival of a text moves tickets from one place to another, if any. -/
theorem moves_step (hstep : Step hash s a s') (ha : ∀ text, a ≠ .enqueue text) :
    Ledger.Moves s.tickets s'.tickets := by
  cases hstep with
  | enqueue text => exact absurd rfl (ha text)
  | @testRunning i hpc =>
      refine moves_setWorker ?_
      rw [hpc]
      split <;> rfl
  | popNothing hpc => exact moves_setWorker (by rw [hpc]; rfl)
  | pop hpc hpending score => exact moves_pop hpc hpending score
  | push hpc => exact moves_push hpc
  | @testBatch pc hpc hnext =>
      refine .still fun p => ?_
      cases p with
      | batch =>
          rcases hnext with rfl | rfl <;> simp [State.tickets, hpc, BatchPc.entries]
      | _ => exact List.Perm.refl _
  | takeNothing hpc =>
      refine .still fun p => ?_
      cases p with
      | batch => simp [State.tickets, hpc, BatchPc.entries]
      | _ => exact List.Perm.refl _
  | takeBatch hpc =>
      refine .transfer .batchQueue .batch (s.batchQueue.map Entry.ticket) (by decide) ?_ ?_ ?_
      · simp [State.tickets]
      · simp [State.tickets, hpc, BatchPc.entries]
      · intro p hsource htarget
        cases p with
        | batchQueue => exact absurd rfl hsource
        | batch => exact absurd rfl htarget
        | _ => rfl
  | persist hpc o => exact moves_persist hpc o
  | settleFailed hpc io =>
      refine moves_settleFailed io (Or.inl rfl) ?_ ?_
      · simp [State.tickets, hpc, BatchPc.entries]
      · intro p hp
        cases p with
        | batch => exact absurd rfl hp
        | _ => rfl
  | @settlePersisted e persisted hpc now =>
      refine .transfer .batch .succeeded [e.ticket] (by decide) ?_ ?_ ?_
      · simp [State.tickets, State.storeResult, hpc, BatchPc.entries]
      · simp [State.tickets, State.succeeded, State.storeResult, Entry.result]
      · intro p hsource htarget
        cases p with
        | batch => exact absurd rfl hsource
        | succeeded => exact absurd rfl htarget
        | _ => rfl
  | settled hpc =>
      refine .still fun p => ?_
      cases p with
      | batch => simp [State.tickets, hpc, BatchPc.entries]
      | _ => exact List.Perm.refl _
  | stop hpc =>
      refine .still fun p => ?_
      cases p with
      | drain => simp [State.tickets, hpc, StopPc.rest]
      | _ => exact List.Perm.refl _
  | joinBatch hpc hbatch =>
      refine .still fun p => ?_
      cases p with
      | drain => simp [State.tickets, hpc, StopPc.rest]
      | _ => exact List.Perm.refl _
  | joinWorkers hpc hworkers =>
      refine .transfer .batchQueue .drain (s.batchQueue.map Entry.ticket) (by decide) ?_ ?_ ?_
      · simp [State.tickets]
      · simp [State.tickets, hpc, StopPc.rest]
      · intro p hsource htarget
        cases p with
        | batchQueue => exact absurd rfl hsource
        | drain => exact absurd rfl htarget
        | _ => rfl
  | drain hpc io =>
      refine moves_settleFailed io (Or.inr rfl) ?_ ?_
      · simp [State.tickets, hpc, StopPc.rest]
      · intro p hp
        cases p with
        | drain => exact absurd rfl hp
        | _ => rfl
  | drained hpc =>
      refine .still fun p => ?_
      cases p with
      | drain => simp [State.tickets, hpc, StopPc.rest]
      | _ => exact List.Perm.refl _

/-! ### One copy of every job -/

theorem histories_step (hstep : Step hash s a s') (henqueue : ∀ text, a ≠ .enqueue text)
    (hpop : ∀ i score, a ≠ .pop i score) :
    s'.accepted = s.accepted ∧ s'.taken = s.taken ∧ s'.discarded = s.discarded := by
  have hsettle : ∀ (s : State) io e, (s.settleFailed hash io e).accepted = s.accepted ∧
      (s.settleFailed hash io e).taken = s.taken ∧
      (s.settleFailed hash io e).discarded = s.discarded := by
    intro s io e
    obtain ⟨h, -⟩ | ⟨e', r, -, -, h | h⟩ := settleFailed_cases hash s io e <;>
      rw [h] <;> exact ⟨rfl, rfl, rfl⟩
  cases hstep with
  | enqueue text => exact absurd rfl (henqueue text)
  | pop hpc hpending score => exact absurd rfl (hpop _ score)
  | settleFailed hpc io => exact hsettle _ io _
  | drain hpc io => exact hsettle _ io _
  | _ => exact ⟨rfl, rfl, rfl⟩

theorem histories_receive (s : State) (i : Fin kWorkerCount) (p : Payload) (score : Option Bytes) :
    (s.receive i p score).accepted = s.accepted ∧
      (fromJson p.text = none ∧ (s.receive i p score).taken = s.taken ∧
          (s.receive i p score).discarded = s.discarded ++ [p] ∨
        (fromJson p.text).isSome = true ∧ (s.receive i p score).taken = s.taken ++ [p.ticket] ∧
          (s.receive i p score).discarded = s.discarded) := by
  unfold State.receive
  cases hjob : fromJson p.text with
  | none => exact ⟨rfl, Or.inl ⟨rfl, rfl, rfl⟩⟩
  | some job => exact ⟨rfl, Or.inr ⟨rfl, rfl, rfl⟩⟩

/-- Every ticket that was given out has one copy, and no other has any. -/
def OneCopy (s : State) : Prop := ∀ t, s.copies t = if t < s.accepted.length then 1 else 0

theorem oneCopy_started : OneCopy .started := by
  intro t
  have hnone : ∀ p, (State.started.tickets p).count t = 0 := fun p => by cases p <;> rfl
  rw [State.copies, Ledger.copies, Finset.sum_eq_zero fun p _ => hnone p]
  simp [State.started]

theorem oneCopy_step (h : OneCopy s) (hstep : Step hash s a s') : OneCopy s' := by
  by_cases henqueue : ∃ text, a = .enqueue text
  · obtain ⟨text, rfl⟩ := henqueue
    cases hstep
    intro t
    have hissue : (s.enqueue text).copies t =
        s.copies t + if s.accepted.length = t then 1 else 0 := by
      refine Ledger.copies_of_issue (q := .pending) ?_ ?_ t
      · simp [State.tickets, State.enqueue]
      · intro p hp
        cases p with
        | pending => exact absurd rfl hp
        | _ => rfl
    have hlength : (s.enqueue text).accepted.length = s.accepted.length + 1 := by
      simp [State.enqueue]
    rw [hissue, h t, hlength]
    split <;> split <;> split <;> omega
  · have henqueue' : ∀ text, a ≠ .enqueue text := fun text h => henqueue ⟨text, h⟩
    have haccepted : s'.accepted = s.accepted := by
      by_cases hpop : ∃ i score, a = .pop i score
      · obtain ⟨i, score, rfl⟩ := hpop
        cases hstep
        exact (histories_receive _ _ _ _).1
      · exact (histories_step hstep henqueue' fun i score h => hpop ⟨i, score, h⟩).1
    intro t
    have hsame : s'.copies t = s.copies t := (moves_step hstep henqueue').copies_eq t
    rw [hsame, haccepted]
    exact h t

theorem OneCopy.le_one (h : OneCopy s) (t : Nat) : s.copies t ≤ 1 := by
  rw [h t]
  split <;> omega

/-- A ticket that lies anywhere has been given out. -/
theorem OneCopy.lt_of_mem (h : OneCopy s) {t : Nat} {p : Place} (hmem : t ∈ s.tickets p) :
    t < s.accepted.length := by
  have hpos : 0 < s.copies t := Ledger.copies_pos_iff.mpr ⟨p, hmem⟩
  rw [h t] at hpos
  by_contra hlt
  rw [if_neg hlt] at hpos
  exact Nat.lt_irrefl 0 hpos

/-! ### A decoded job stays decodable -/

/-- Jobs on their way have a job id. -/
abbrev Named : State → Prop :=
  Throughout (fun _ => True) (fun e => e.job.jobId ≠ []) (fun e => e.job.jobId ≠ [])

theorem jobId_ne_nil_of_fromJson {text : Bytes} {job : SubmissionJob}
    (h : fromJson text = some job) : job.jobId ≠ [] := by
  unfold fromJson at h
  split at h
  · cases h
  · next hid =>
      cases h
      exact hid

theorem named_step (h : Named s) (hstep : Step hash s a s') : Named s' :=
  h.step ⟨fun _ _ hjob => jobId_ne_nil_of_fromJson hjob, fun h => h, fun _ _ => trivial,
    fun _ _ => trivial⟩ hstep fun _ _ => trivial

/-- What was decoded once was given out, can be decoded again while it is in the pending list, and
is not discarded. -/
structure Readable (s : State) : Prop where
  issued : ∀ t ∈ s.taken, t < s.accepted.length
  pending : ∀ p ∈ s.pending, p.ticket ∈ s.taken → (fromJson p.text).isSome = true
  discarded : ∀ p ∈ s.discarded, p.ticket ∉ s.taken

theorem isSome_fromJson_payload {e : Entry} (h : e.job.jobId ≠ []) :
    (fromJson e.retried.payload.text).isSome = true := by
  have hid : e.retried.job.jobId ≠ [] := h
  have hread := fromJson_toJson hid
  rw [Entry.payload, hread]
  rfl

theorem readable_settleFailed {e : Entry} (h : Readable s) (hid : e.job.jobId ≠ [])
    (io : SettleOutcome) : Readable (s.settleFailed hash io e) := by
  obtain ⟨hs, -⟩ | ⟨e', r, -, -, hs | hs⟩ := settleFailed_cases hash s io e
  · rw [hs]
    refine ⟨h.issued, ?_, h.discarded⟩
    intro p hp htaken
    obtain hold | hnew := List.mem_append.mp hp
    · exact h.pending p hold htaken
    · rw [List.mem_singleton.mp hnew]
      exact isSome_fromJson_payload hid
  · rw [hs]
    exact ⟨h.issued, h.pending, h.discarded⟩
  · rw [hs]
    exact ⟨h.issued, h.pending, h.discarded⟩

/-- Only the arrival of a text, a pop and the settling of a failed job change what `Readable` is
about. -/
theorem readable_step (hone : OneCopy s) (hnamed : Named s) (h : Readable s)
    (hstep : Step hash s a s') : Readable s' := by
  cases hstep with
  | enqueue text =>
      refine ⟨?_, ?_, h.discarded⟩
      · intro t ht
        have hlt := h.issued t ht
        simp only [State.enqueue, List.length_append, List.length_singleton]
        omega
      · intro p hp htaken
        obtain hold | hnew := List.mem_append.mp hp
        · exact h.pending p hold htaken
        · -- a new ticket has not been taken
          rw [List.mem_singleton.mp hnew] at htaken
          exact absurd (h.issued _ htaken) (Nat.lt_irrefl _)
  | @pop i p rest hpc hpending score =>
      have hhead : p ∈ s.pending := hpending ▸ List.mem_cons_self
      have hcount : s.copies p.ticket ≤ 1 := hone.le_one p.ticket
      have hmem : p.ticket ∈ s.tickets .pending := List.mem_map_of_mem hhead
      have hissued : p.ticket < s.accepted.length := hone.lt_of_mem hmem
      have hrest : ∀ q ∈ rest, q.ticket ≠ p.ticket := by
        intro q hq hsame
        have hle := Ledger.count_le_copies s.tickets p.ticket .pending
        have hcopies : Ledger.copies s.tickets p.ticket ≤ 1 := hcount
        have htwo : 2 ≤ (s.tickets .pending).count p.ticket := by
          have hq' : 0 < (rest.map Payload.ticket).count p.ticket :=
            List.count_pos_iff.mpr (List.mem_map.mpr ⟨q, hq, hsame⟩)
          simp only [State.tickets, hpending, List.map_cons, List.count_cons_self]
          omega
        omega
      obtain ⟨haccepted, ⟨hjob, htaken, hdiscarded⟩ | ⟨hjob, htaken, hdiscarded⟩⟩ :=
        histories_receive { s with pending := rest } i p score
      all_goals
        have hpending' : ({ s with pending := rest }.receive i p score).pending = rest := by
          unfold State.receive
          cases fromJson p.text <;> rfl
      · refine ⟨?_, ?_, ?_⟩
        · rw [htaken, haccepted]
          exact h.issued
        · rw [hpending', htaken]
          exact fun q hq => h.pending q (hpending ▸ List.mem_cons_of_mem _ hq)
        · rw [hdiscarded, htaken]
          intro q hq hq'
          obtain hold | hnew := List.mem_append.mp hq
          · exact h.discarded q hold hq'
          · -- a job that was decoded before would have been decoded again
            rw [List.mem_singleton.mp hnew] at hq'
            have hsome := h.pending p hhead hq'
            rw [hjob] at hsome
            cases hsome
      · refine ⟨?_, ?_, ?_⟩
        · rw [htaken, haccepted]
          intro t ht
          obtain hold | hnew := List.mem_append.mp ht
          · exact h.issued t hold
          · exact List.mem_singleton.mp hnew ▸ hissued
        · rw [hpending', htaken]
          intro q hq hq'
          obtain hold | hnew := List.mem_append.mp hq'
          · exact h.pending q (hpending ▸ List.mem_cons_of_mem _ hq) hold
          · exact absurd (List.mem_singleton.mp hnew) (hrest q hq)
        · rw [hdiscarded, htaken]
          intro q hq hq'
          obtain hold | hnew := List.mem_append.mp hq'
          · exact h.discarded q hq hold
          · have hdisc : p.ticket ∈ s.tickets .discarded :=
              List.mem_map.mpr ⟨q, hq, List.mem_singleton.mp hnew⟩
            exact Ledger.notMem_of_copies_le_one hcount hmem (by decide) hdisc
  | @settleFailed e failed persisted hpc io =>
      have hid : e.job.jobId ≠ [] := hnamed.failed e (by rw [hpc]; exact List.mem_cons_self)
      have hrest : Readable { s with batch := .settling failed persisted } :=
        ⟨h.issued, h.pending, h.discarded⟩
      exact readable_settleFailed hrest hid io
  | @drain e rest hpc io =>
      have hid : e.job.jobId ≠ [] := hnamed.rest e (by rw [hpc]; exact List.mem_cons_self)
      have hrest : Readable { s with stopping := .draining rest } :=
        ⟨h.issued, h.pending, h.discarded⟩
      exact readable_settleFailed hrest hid io
  | _ => exact ⟨h.issued, h.pending, h.discarded⟩

/-! ### Runs in which the database keeps its word -/

/-- The function reaches the database, and a COMMIT that is acknowledged after jobs were written
commits them. -/
def Delivers (s : State) : Action → Prop
  | .persist o => o.pool.reached = true ∧ o.Honest s.batch.untried s.db
  | _ => True

instance (s : State) : ∀ a, Decidable (Delivers s a)
  | .persist o => inferInstanceAs (Decidable (o.pool.reached = true ∧ _))
  | .enqueue _ | .testRunning _ | .popNothing _ | .pop _ _ | .push _ | .testBatch | .takeBatch
  | .settleFailed _ | .settlePersisted _ | .settled | .stop | .joinBatch | .joinWorkers
  | .drain _ | .drained => isTrue trivial

/-- Nothing is lost, and what has a success result, or is about to get one, has been written. -/
structure Delivered (s : State) : Prop where
  lost : s.lost = []
  persisted : s.batch.persisted ⊆ s.db.written
  succeeded : s.succeeded ⊆ s.db.written.map Entry.ticket

theorem delivered_settleFailed {e : Entry} (h : Delivered s) (io : SettleOutcome) :
    Delivered (s.settleFailed hash io e) := by
  obtain ⟨hs, -⟩ | ⟨e', r, -, hfalse, hs | hs⟩ := settleFailed_cases hash s io e
  · rw [hs]
    exact ⟨h.lost, h.persisted, h.succeeded⟩
  · rw [hs]
    refine ⟨h.lost, h.persisted, ?_⟩
    rw [State.succeeded, succeeded_append_failure hfalse]
    exact h.succeeded
  · rw [hs]
    refine ⟨h.lost, h.persisted, ?_⟩
    rw [State.succeeded, succeeded_append_failure hfalse]
    exact h.succeeded

theorem delivered_step (h : Delivered s) (hdelivers : Delivers s a) (hstep : Step hash s a s') :
    Delivered s' := by
  cases hstep with
  | pop hpc hpending score =>
      unfold State.receive
      split <;> exact ⟨h.lost, h.persisted, h.succeeded⟩
  | testBatch hpc hnext =>
      obtain rfl | rfl := hnext <;> exact ⟨h.lost, List.nil_subset _, h.succeeded⟩
  | takeNothing hpc => exact ⟨h.lost, List.nil_subset _, h.succeeded⟩
  | takeBatch hpc => exact ⟨h.lost, List.nil_subset _, h.succeeded⟩
  | @persist batch hpc o =>
      obtain ⟨hreached, hhonest⟩ := hdelivers
      rw [hpc] at hhonest
      refine ⟨?_, persisted_subset_runPersist hhonest, ?_⟩
      · simpa [State.persist, hreached] using h.lost
      · exact List.Subset.trans h.succeeded
          (List.map_subset _ (written_subset_runPersist o batch s.db))
  | @settleFailed e failed persisted hpc io =>
      have hpersisted := h.persisted
      rw [hpc] at hpersisted
      have hrest : Delivered { s with batch := .settling failed persisted } :=
        ⟨h.lost, hpersisted, h.succeeded⟩
      exact delivered_settleFailed hrest io
  | @settlePersisted e persisted hpc now =>
      have hpersisted := h.persisted
      rw [hpc] at hpersisted
      obtain ⟨hhead, hrest⟩ := List.cons_subset.mp hpersisted
      refine ⟨h.lost, hrest, ?_⟩
      have hsucceeded : ({ s with batch := .settling [] persisted }.storeResult e.ticket
          (e.result hash true (str "ok") now)).succeeded = s.succeeded ++ [e.ticket] := by
        simp [State.succeeded, State.storeResult, Entry.result]
      rw [hsucceeded]
      exact List.append_subset.mpr ⟨h.succeeded,
        List.cons_subset.mpr ⟨List.mem_map_of_mem hhead, List.nil_subset _⟩⟩
  | settled hpc => exact ⟨h.lost, List.nil_subset _, h.succeeded⟩
  | @drain e rest hpc io =>
      have hrest : Delivered { s with stopping := .draining rest } :=
        ⟨h.lost, h.persisted, h.succeeded⟩
      exact delivered_settleFailed hrest io
  | _ => exact ⟨h.lost, h.persisted, h.succeeded⟩

/-! ### Whole runs -/

theorem oneCopy_invariant (hash : Bytes → Bytes) (guard : State → Action → Prop) :
    (worker hash).Invariant guard OneCopy where
  initial := oneCopy_started
  step := fun h _ hstep => oneCopy_step h (step_of_step? hstep)

theorem readable_invariant (hash : Bytes → Bytes) (guard : State → Action → Prop) :
    (worker hash).Invariant guard fun s => (OneCopy s ∧ Named s) ∧ Readable s := by
  have hnamed : (worker hash).Invariant guard fun s => OneCopy s ∧ Named s :=
    (oneCopy_invariant hash guard).using Throughout.started fun _ h _ hstep =>
      named_step h (step_of_step? hstep)
  refine hnamed.using ?_ fun hknown h _ hstep =>
    readable_step hknown.1 hknown.2 h (step_of_step? hstep)
  exact ⟨fun _ ht => (List.not_mem_nil ht).elim, fun _ hp => (List.not_mem_nil hp).elim,
    fun _ hp => (List.not_mem_nil hp).elim⟩

theorem delivered_invariant (hash : Bytes → Bytes) :
    (worker hash).Invariant Delivers Delivered where
  initial := ⟨rfl, List.nil_subset _, List.nil_subset _⟩
  step := fun h hdelivers hstep => delivered_step h hdelivers (step_of_step? hstep)

/-- One job is decoded, put into a batch and persisted. -/
def plainRun : List Action :=
  [.enqueue (toJson { jobId := str "0f" }), .testRunning 0, .pop 0 none, .push 0, .testBatch,
    .takeBatch, .persist {}, .settlePersisted []]

/-- The same job, and `with_global_pg` finds no connection. -/
def lossyRun : List Action :=
  [.enqueue (toJson { jobId := str "0f" }), .testRunning 0, .pop 0 none, .push 0, .testBatch,
    .takeBatch, .persist { pool := { acquire := false, acquireAgain := false } }, .settled]

end ExamVan.Queue
