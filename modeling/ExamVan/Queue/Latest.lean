import ExamVan.Queue.Accounting

/-!
# The latest submission

A row shows the job that was written to it last. That is the job with the latest `enqueued_at` as
long as the jobs of a device reach the database in the order of `enqueued_at`: nothing in the worker
compares the two, and a job that is requeued, or overtaken by another thread, comes out of order.
-/

namespace ExamVan.Queue

open ByteString

variable {hash : Bytes → Bytes} {s s' : State} {a : Action}

def Entry.key (e : Entry) : Key := e.job.key

/-- The jobs of each device stand in the order of `enqueued_at`. -/
def InOrder (entries : List Entry) : Prop :=
  entries.Pairwise fun a b => a.key = b.key → a.job.enqueuedAt < b.job.enqueuedAt

instance (entries : List Entry) : Decidable (InOrder entries) :=
  inferInstanceAs (Decidable (List.Pairwise _ entries))

/-- The row has the job's id, answers and score. -/
def Shows (e : Entry) (row : Row) : Prop :=
  row.jobId = some (param e.job.jobId) ∧
    row.answersJson = some (param (mapToJson e.job.answers)) ∧
    row.score = Sql.nullIf (e.score.getD []) []

/-- Every row shows the last job written for its key. -/
def ShowsLast (db : Database) : Prop :=
  ∀ before e after, db.written = before ++ e :: after → (∀ e' ∈ after, e'.key ≠ e.key) →
    ∃ row, db.rows e.key = some row ∧ Shows e row

/-! ### One statement -/

theorem shows_insertedRow (e : Entry) : Shows e (insertedRow e.job e.score) := ⟨rfl, rfl, rfl⟩

theorem shows_updatedRow (e : Entry) (row : Row) : Shows e (updatedRow e.job e.score row) :=
  ⟨rfl, rfl, rfl⟩

theorem shows_conflictRow (e : Entry) (row : Row) : Shows e (conflictRow e.job e.score row) :=
  ⟨rfl, rfl, rfl⟩

/-- Writing a row that shows the new job, and no other row. -/
theorem showsLast_write {db : Database} (h : ShowsLast db) {e : Entry} {rows : SubmissionTable}
    (hself : ∃ row, rows e.key = some row ∧ Shows e row)
    (hother : ∀ k, k ≠ e.key → rows k = db.rows k) : ShowsLast ⟨rows, db.written ++ [e]⟩ := by
  intro before e' after hwritten hlast
  obtain rfl | ⟨rest, last, rfl⟩ := List.eq_nil_or_concat after
  · obtain ⟨-, hsame⟩ := List.append_inj' hwritten rfl
    cases hsame
    exact hself
  · have hsplit : db.written ++ [e] = (before ++ e' :: rest) ++ [last] := by simpa using hwritten
    obtain ⟨hbefore, hsame⟩ := List.append_inj' hsplit rfl
    cases hsame
    have hkey : e'.key ≠ e.key := fun heq => hlast e (by simp) heq.symm
    change ∃ row, rows e'.key = some row ∧ Shows e' row
    rw [hother e'.key hkey]
    exact h before e' rest hbefore fun x hx => hlast x (by simp [hx])

theorem showsLast_updateStatement {db : Database} (h : ShowsLast db) (e : Entry) :
    ShowsLast (updateStatement e db).2 := by
  unfold updateStatement updateSubmission
  cases hrow : db.rows e.job.key with
  | none => exact h
  | some row =>
      by_cases hfinds : updateFinds e.job row = true
      · simp only [hfinds, if_true]
        refine showsLast_write h ⟨_, Sql.Table.write_self _ _ _, shows_updatedRow e row⟩ ?_
        exact fun k hk => Sql.Table.write_of_ne db.rows _ hk
      · simp only [hfinds]
        exact h

theorem showsLast_insertStatement {db : Database} (h : ShowsLast db) (e : Entry) :
    ShowsLast (insertStatement e db).2 := by
  refine showsLast_write h ⟨_, Sql.Table.upsert_self _ _ _ _, ?_⟩ ?_
  · cases db.rows e.job.key with
    | none => exact shows_insertedRow e
    | some row => exact shows_conflictRow e row
  · exact fun k hk => Sql.Table.upsert_of_ne db.rows _ _ hk

/-! ### One batch -/

/-- The rows show the last jobs, and the jobs still to come are in order behind the written ones. -/
structure Latest (rest : List Entry) (db : Database) : Prop where
  shows : ShowsLast db
  order : InOrder (db.written ++ rest)

theorem Latest.skip {e : Entry} {rest : List Entry} {db : Database} (h : Latest (e :: rest) db) :
    Latest rest db :=
  ⟨h.shows, h.order.sublist ((List.Sublist.refl _).append (List.sublist_cons_self e rest))⟩

theorem Latest.update {e : Entry} {rest : List Entry} {db : Database}
    (h : Latest (e :: rest) db) : Latest rest (updateStatement e db).2 := by
  refine ⟨showsLast_updateStatement h.shows e, ?_⟩
  unfold updateStatement
  dsimp only
  split
  · simpa using h.order
  · exact h.skip.order

theorem Latest.insert {e : Entry} {rest : List Entry} {db : Database}
    (h : Latest (e :: rest) db) : Latest rest (insertStatement e db).2 :=
  ⟨showsLast_insertStatement h.shows e, by simpa [insertStatement] using h.order⟩

theorem latest_runPersist {batch : List Entry} {db : Database} (h : Latest batch db)
    (o : BatchOutcome) : Latest [] (runPersist o batch db).db :=
  runPersist_holds (fun _ _ _ h => h.skip) (fun _ _ _ h => h.update) (fun _ _ _ h => h.insert) o h

/-! ### Whole runs -/

/-- No batch holds a job that is not newer than every job of its device before it in the batch, and
than every one that has been written. -/
def Fresh (s : State) : Action → Prop
  | .persist _ => InOrder (s.db.written ++ s.batch.untried)
  | _ => True

instance (s : State) : ∀ a, Decidable (Fresh s a)
  | .persist _ => inferInstanceAs (Decidable (InOrder _))
  | .enqueue _ | .testRunning _ | .popNothing _ | .pop _ _ | .push _ | .testBatch | .takeBatch
  | .settleFailed _ | .settlePersisted _ | .settled | .stop | .joinBatch | .joinWorkers
  | .drain _ | .drained => isTrue trivial

/-- Only the transaction of a batch writes. -/
theorem db_step (hstep : Step hash s a s') (ha : ∀ o, a ≠ .persist o) : s'.db = s.db := by
  have hsettle : ∀ (s : State) io e, (s.settleFailed hash io e).db = s.db := by
    intro s io e
    obtain ⟨h, -⟩ | ⟨e', r, -, -, h | h⟩ := settleFailed_cases hash s io e <;> rw [h]
  cases hstep with
  | persist hpc o => exact absurd rfl (ha o)
  | pop hpc hpending score =>
      unfold State.receive
      split <;> rfl
  | settleFailed hpc io => exact hsettle _ io _
  | drain hpc io => exact hsettle _ io _
  | _ => rfl

theorem latest_step (h : Latest [] s.db) (hfresh : Fresh s a) (hstep : Step hash s a s') :
    Latest [] s'.db := by
  by_cases hpersist : ∃ o, a = .persist o
  · obtain ⟨o, rfl⟩ := hpersist
    cases hstep with
    | @persist batch hpc o =>
        have horder : InOrder (s.db.written ++ batch) := by
          simpa only [Fresh, hpc, BatchPc.untried] using hfresh
        exact latest_runPersist ⟨h.shows, horder⟩ o
  · rw [db_step hstep fun o ho => hpersist ⟨o, ho⟩]
    exact h

theorem latest_invariant (hash : Bytes → Bytes) :
    (worker hash).Invariant Fresh fun s => Latest [] s.db where
  initial := by
    refine ⟨fun before e after hwritten => ?_, List.Pairwise.nil⟩
    exact absurd hwritten.symm (by simp [worker, State.started])
  step := fun h hfresh hstep => latest_step h hfresh (step_of_step? hstep)

instance (e : Entry) (row : Row) : Decidable (Shows e row) := inferInstanceAs (Decidable (_ ∧ _))

def olderJob : SubmissionJob := { jobId := str "01", enqueuedAt := str "08:00" }

def newerJob : SubmissionJob := { jobId := str "02", enqueuedAt := str "08:05" }

/-- Worker 0 and the batch thread handle the next job of the pending list. -/
def round (o : BatchOutcome) (settle : Action) : List Action :=
  [.testRunning 0, .pop 0 none, .push 0, .testBatch, .takeBatch, .persist o, settle, .settled]

def orderedRun : List Action :=
  [.enqueue (toJson olderJob), .enqueue (toJson newerJob)] ++
    round {} (.settlePersisted []) ++ round {} (.settlePersisted [])

/-- The batch of the older job fails, and the job is requeued behind the newer one. -/
def staleRun : List Action :=
  [.enqueue (toJson olderJob), .enqueue (toJson newerJob)] ++
    round { begins := false } (.settleFailed {}) ++ round {} (.settlePersisted []) ++
    round {} (.settlePersisted [])

end ExamVan.Queue
