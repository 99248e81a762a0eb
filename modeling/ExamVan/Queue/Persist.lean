import ExamVan.Db.Pool
import ExamVan.Lib.Transaction
import ExamVan.Queue.Submissions

/-!
# The transaction of one batch

`run_batch` persists a batch in one transaction, with a savepoint around every job. Whether a
statement succeeds is the server's to say; what an error does to the transaction is not.

A job travels with a ticket that the program knows nothing of: it tells the job from others with the
same content.
-/

namespace ExamVan.Queue

open ByteString Db

/-- An element of a Redis list. -/
structure Payload where
  ticket : Nat
  text : Bytes
  deriving DecidableEq

/-- A decoded job with its score, as `batch_q_` holds it. -/
structure Entry where
  ticket : Nat
  job : SubmissionJob
  score : Option Bytes
  deriving DecidableEq

/-- What the worker's session sees of the database, with a log of the rows written. -/
structure Database where
  rows : SubmissionTable
  written : List Entry

/-- Whether each statement for one job succeeds, if the server executes it. -/
structure RowOutcome where
  savepoint : Bool := true
  lock : Bool := true
  update : Bool := true
  insert : Bool := true
  release : Bool := true
  rollback : Bool := true
  rollbackRelease : Bool := true

/-- What one batch meets. The rows' outcomes stand in the order of the batch; past the end of the
list all statements succeed. -/
structure BatchOutcome where
  pool : PoolOutcome := {}
  begins : Bool := true
  rows : List RowOutcome := []
  commits : Bool := true

/-! ### One job -/

def updateStatement (e : Entry) (db : Database) : Bool × Database :=
  let up := updateSubmission e.job e.score db.rows
  if up.1 then (true, ⟨up.2, db.written ++ [e]⟩) else (false, db)

def insertStatement (e : Entry) (db : Database) : Unit × Database :=
  ((), ⟨insertSubmission e.job e.score db.rows, db.written ++ [e]⟩)

/-- `SAVEPOINT`, and the advisory lock if that succeeded. -/
def openRow (o : RowOutcome) (tx : Transaction Database) : Bool × Transaction Database :=
  let save := tx.savepoint o.savepoint
  if save.1 then
    let lock := save.2.exec o.lock fun db => ((), db)
    (lock.1.isSome, lock.2)
  else save

/-- `UPDATE`, and `INSERT` if it failed or returned no row. -/
def writeRow (o : RowOutcome) (e : Entry) (tx : Transaction Database) :
    Bool × Transaction Database :=
  let up := tx.exec o.update (updateStatement e)
  if up.1 = some true then (true, up.2)
  else
    let ins := up.2.exec o.insert (insertStatement e)
    (ins.1.isSome, ins.2)

/-- `RELEASE`, or `ROLLBACK TO` and `RELEASE` with their results ignored. -/
def closeRow (o : RowOutcome) (ok : Bool) (tx : Transaction Database) :
    Bool × Transaction Database :=
  if ok then tx.release o.release
  else (false, ((tx.rollbackTo o.rollback).2.release o.rollbackRelease).2)

/-- The body of the loop over the batch. -/
def persistRow (o : RowOutcome) (e : Entry) (tx : Transaction Database) :
    Bool × Transaction Database :=
  let opened := openRow o tx
  let written := if opened.1 then writeRow o e opened.2 else opened
  closeRow o written.1 written.2

/-! ### The batch -/

/-- The loop's two lists, and the transaction after it. -/
structure RowsResult where
  failed : List Entry
  persisted : List Entry
  tx : Transaction Database

def persistRows : List RowOutcome → List Entry → Transaction Database → RowsResult
  | _, [], tx => ⟨[], [], tx⟩
  | outcomes, e :: rest, tx =>
      let row := persistRow (outcomes.headD {}) e tx
      let later := persistRows outcomes.tail rest row.2
      if row.1 then { later with persisted := e :: later.persisted }
      else { later with failed := e :: later.failed }

/-- `failed`, `persisted` and the database. -/
structure BatchResult where
  failed : List Entry
  persisted : List Entry
  db : Database

/-- The loop over the batch, in the transaction that `BEGIN` opens. -/
def BatchOutcome.loop (o : BatchOutcome) (batch : List Entry) (db : Database) : RowsResult :=
  persistRows o.rows batch (Transaction.opened db)

/-- The function that `run_batch` passes to `with_global_pg`. -/
def persistBatch (o : BatchOutcome) (batch : List Entry) (s : BatchResult) : BatchResult :=
  if o.begins then
    let rows := o.loop batch s.db
    let commit := rows.tx.commit o.commits s.db
    if commit.1 then ⟨rows.failed, rows.persisted, commit.2⟩
    else ⟨rows.failed ++ rows.persisted, [], commit.2⟩
  else ⟨batch, [], s.db⟩

/-- The batch after `with_global_pg` returns, from empty lists. -/
def runPersist (o : BatchOutcome) (batch : List Entry) (db : Database) : BatchResult :=
  (withGlobalPg o.pool (persistBatch o batch) ⟨[], [], db⟩).2

/-! ### Where the jobs of a batch go -/

theorem persistRows_perm (outcomes : List RowOutcome) (batch : List Entry)
    (tx : Transaction Database) :
    ((persistRows outcomes batch tx).failed ++ (persistRows outcomes batch tx).persisted).Perm
      batch := by
  induction batch generalizing outcomes tx with
  | nil => exact List.Perm.refl _
  | cons e rest ih =>
      have hrest := ih outcomes.tail (persistRow (outcomes.headD {}) e tx).2
      rw [persistRows]
      by_cases hok : (persistRow (outcomes.headD {}) e tx).1 = true
      · rw [if_pos hok]
        exact List.perm_middle.trans (hrest.cons e)
      · rw [if_neg hok]
        exact hrest.cons e

theorem runPersist_of_not_reached {o : BatchOutcome} (h : o.pool.reached = false)
    (batch : List Entry) (db : Database) : runPersist o batch db = ⟨[], [], db⟩ := by
  rw [runPersist, withGlobalPg_eq, h]
  rfl

theorem runPersist_of_reached {o : BatchOutcome} (h : o.pool.reached = true)
    (batch : List Entry) (db : Database) :
    runPersist o batch db = persistBatch o batch ⟨[], [], db⟩ := by
  rw [runPersist, withGlobalPg_eq, h]
  rfl

/-- If the function runs, it puts every job of the batch into one of its lists. -/
theorem runPersist_perm {o : BatchOutcome} (h : o.pool.reached = true) (batch : List Entry)
    (db : Database) :
    ((runPersist o batch db).failed ++ (runPersist o batch db).persisted).Perm batch := by
  rw [runPersist_of_reached h, persistBatch]
  have hrows := persistRows_perm o.rows batch (Transaction.opened db)
  by_cases hbegins : o.begins = true
  · rw [if_pos hbegins]
    dsimp only
    by_cases hcommit : ((o.loop batch db).tx.commit o.commits db).1 = true
    · rw [if_pos hcommit]
      exact hrows
    · rw [if_neg hcommit, List.append_nil]
      exact hrows
  · rw [if_neg hbegins, List.append_nil]

/-! ### The three parts of a row -/

section Row

variable {o : RowOutcome} {e : Entry} {tx : Transaction Database} {P : Database → Prop}

theorem openRow_true (h : (openRow o tx).1 = true) :
    tx.aborted = false ∧
      (openRow o tx).2 = { tx with savepoints := tx.working :: tx.savepoints } := by
  unfold openRow at h ⊢
  by_cases hsave : (tx.savepoint o.savepoint).1 = true
  · obtain ⟨hlive, hstate⟩ := Transaction.savepoint_true hsave
    rw [if_pos hsave] at h ⊢
    obtain ⟨_, hlock⟩ := Option.isSome_iff_exists.mp h
    obtain ⟨-, -, hafter⟩ := Transaction.exec_eq_some hlock
    exact ⟨hlive, by rw [hafter, hstate]⟩
  · rw [if_neg hsave] at h
    exact absurd h hsave

/-- A row that is not opened leaves the transaction aborted, with at most its own savepoint more. -/
theorem openRow_false (h : (openRow o tx).1 = false) :
    (openRow o tx).2.aborted = true ∧ (openRow o tx).2.working = tx.working ∧
      ((openRow o tx).2.savepoints = tx.savepoints ∨
        (tx.aborted = false ∧ (openRow o tx).2.savepoints = tx.working :: tx.savepoints)) := by
  unfold openRow at h ⊢
  by_cases hsave : (tx.savepoint o.savepoint).1 = true
  · obtain ⟨hlive, hstate⟩ := Transaction.savepoint_true hsave
    rw [if_pos hsave] at h ⊢
    have hlock := Transaction.exec_none
      (Option.isNone_iff_eq_none.mp (Option.isSome_eq_false_iff.mp h))
    rw [hlock, hstate]
    exact ⟨rfl, rfl, Or.inr ⟨hlive, rfl⟩⟩
  · have hstate := Transaction.savepoint_false (Bool.not_eq_true _ ▸ hsave)
    rw [if_neg hsave, hstate]
    exact ⟨rfl, rfl, Or.inl rfl⟩

theorem mem_updateStatement {db : Database} (h : (updateStatement e db).1 = true) :
    e ∈ (updateStatement e db).2.written := by
  unfold updateStatement at h ⊢
  by_cases hup : (updateSubmission e.job e.score db.rows).1 = true
  · simp [hup]
  · simp [hup] at h

theorem mem_insertStatement (db : Database) : e ∈ (insertStatement e db).2.written := by
  simp [insertStatement]

theorem written_subset_updateStatement (db : Database) :
    db.written ⊆ (updateStatement e db).2.written := by
  unfold updateStatement
  dsimp only
  split
  · exact List.subset_append_left _ _
  · exact List.Subset.refl _

theorem written_subset_insertStatement (db : Database) :
    db.written ⊆ (insertStatement e db).2.written :=
  List.subset_append_left _ _

/-- A row that is written leaves the transaction live, with the job in the log. -/
theorem writeRow_true (h : (writeRow o e tx).1 = true) :
    (writeRow o e tx).2.aborted = false ∧ (writeRow o e tx).2.savepoints = tx.savepoints ∧
      e ∈ (writeRow o e tx).2.working.written := by
  unfold writeRow at h ⊢
  by_cases hup : (tx.exec o.update (updateStatement e)).1 = some true
  · obtain ⟨hlive, hfound, hafter⟩ := Transaction.exec_eq_some hup
    rw [if_pos hup, hafter]
    exact ⟨hlive, rfl, mem_updateStatement hfound⟩
  · rw [if_neg hup] at h ⊢
    obtain ⟨_, hins⟩ := Option.isSome_iff_exists.mp h
    obtain ⟨hlive, -, hafter⟩ := Transaction.exec_eq_some hins
    have hsaved : (tx.exec o.update (updateStatement e)).2.savepoints = tx.savepoints := by
      unfold Transaction.exec
      split <;> rfl
    dsimp only
    rw [hafter]
    exact ⟨hlive, hsaved, mem_insertStatement _⟩

theorem writeRow_false (h : (writeRow o e tx).1 = false) :
    (writeRow o e tx).2.aborted = true ∧ (writeRow o e tx).2.savepoints = tx.savepoints := by
  unfold writeRow at h ⊢
  by_cases hup : (tx.exec o.update (updateStatement e)).1 = some true
  · simp [hup] at h
  · rw [if_neg hup] at h ⊢
    have hins := Transaction.exec_none
      (Option.isNone_iff_eq_none.mp (Option.isSome_eq_false_iff.mp h))
    have hsaved : (tx.exec o.update (updateStatement e)).2.savepoints = tx.savepoints := by
      unfold Transaction.exec
      split <;> rfl
    dsimp only
    rw [hins]
    exact ⟨rfl, hsaved⟩

theorem holds_closeRow (h : tx.Holds P) (ok : Bool) : (closeRow o ok tx).2.Holds P := by
  cases ok with
  | true => exact h.release _
  | false => exact (h.rollbackTo _).release _

/-- An `UPDATE` that returns no row leaves the working state as it was. -/
theorem holds_update_of_ne (h : tx.Holds P)
    (hup : (tx.exec o.update (updateStatement e)).1 ≠ some true) :
    (tx.exec o.update (updateStatement e)).2.Holds P := by
  cases hresult : (tx.exec o.update (updateStatement e)).1 with
  | none =>
      rw [Transaction.exec_none hresult]
      exact h.abort
  | some found =>
      cases found with
      | true => exact absurd hresult hup
      | false =>
          obtain ⟨-, hfound, hafter⟩ := Transaction.exec_eq_some hresult
          have hsame : (updateStatement e tx.working).2 = tx.working := by
            unfold updateStatement at hfound ⊢
            dsimp only at hfound ⊢
            split at hfound
            · cases hfound
            · next hmiss => rw [if_neg hmiss]
          rw [hafter, hsame]
          exact h

theorem holds_writeRow (h : tx.Holds P) {Q : Database → Prop} (hskip : ∀ db, P db → Q db)
    (hupdate : ∀ db, P db → Q (updateStatement e db).2)
    (hinsert : ∀ db, P db → Q (insertStatement e db).2) : (writeRow o e tx).2.Holds Q := by
  have hexec : ∀ {β : Type} (tx : Transaction Database) (ok : Bool)
      (statement : Database → β × Database), tx.Holds P →
      (∀ db, P db → Q (statement db).2) → (tx.exec ok statement).2.Holds Q := by
    intro β tx ok statement htx hstatement
    unfold Transaction.exec
    split
    · exact (htx.imp hskip).abort
    · exact ⟨hstatement _ htx.working, fun db hdb => hskip db (htx.savepoints db hdb)⟩
  unfold writeRow
  by_cases hup : (tx.exec o.update (updateStatement e)).1 = some true
  · rw [if_pos hup]
    exact hexec tx _ _ h hupdate
  · rw [if_neg hup]
    exact hexec _ _ _ (holds_update_of_ne h hup) hinsert

/-- What holds before a row, and after either statement of it, holds after the row. -/
theorem holds_persistRow (h : tx.Holds P) {Q : Database → Prop} (hskip : ∀ db, P db → Q db)
    (hupdate : ∀ db, P db → Q (updateStatement e db).2)
    (hinsert : ∀ db, P db → Q (insertStatement e db).2) : (persistRow o e tx).2.Holds Q := by
  have hopened : (openRow o tx).2.Holds P := by
    unfold openRow
    dsimp only
    split
    · exact (h.savepoint _).exec _ fun _ hdb => hdb
    · exact h.savepoint _
  have hwritten : (if (openRow o tx).1 then writeRow o e (openRow o tx).2
      else openRow o tx).2.Holds Q := by
    split
    · exact holds_writeRow hopened hskip hupdate hinsert
    · exact hopened.imp hskip
  exact holds_closeRow hwritten _

end Row

/-! ### What a job in `persisted` means -/

/-- Between two rows there is at most one savepoint, a leftover of a row that could not be closed;
a live transaction has none. -/
structure AtRowEnd (tx : Transaction Database) : Prop where
  live : tx.aborted = false → tx.savepoints = []
  single : tx.savepoints.length ≤ 1

section RowEnd

variable {o : RowOutcome} {e : Entry} {tx : Transaction Database}

theorem atRowEnd_opened (db : Database) : AtRowEnd (Transaction.opened db) :=
  ⟨fun _ => rfl, Nat.zero_le _⟩

theorem atRowEnd_abort (h : tx.savepoints.length ≤ 1) : AtRowEnd tx.abort :=
  ⟨fun hlive => absurd hlive Bool.noConfusion, h⟩

theorem atRowEnd_release (h : tx.savepoints.length ≤ 1) (ok : Bool) :
    AtRowEnd (tx.release ok).2 := by
  cases hok : (tx.release ok).1 with
  | false =>
      rw [Transaction.release_false hok]
      exact atRowEnd_abort h
  | true =>
      rw [(Transaction.release_true hok).2]
      have htail : tx.savepoints.tail = [] :=
        List.eq_nil_of_length_eq_zero (by rw [List.length_tail]; omega)
      exact ⟨fun _ => htail, by simp [htail]⟩

theorem atRowEnd_closeRow (h : tx.savepoints.length ≤ 1) (ok : Bool) :
    AtRowEnd (closeRow o ok tx).2 := by
  cases ok with
  | true => exact atRowEnd_release h _
  | false =>
      refine atRowEnd_release ?_ o.rollbackRelease
      cases hback : (tx.rollbackTo o.rollback).1 with
      | false =>
          rw [Transaction.rollbackTo_false hback]
          exact h
      | true =>
          obtain ⟨saved, older, -, hafter⟩ := Transaction.rollbackTo_true hback
          rw [hafter]
          exact h

/-- The savepoints of a row after its two statements. -/
theorem savepoints_written (h : AtRowEnd tx) :
    (if (openRow o tx).1 then writeRow o e (openRow o tx).2 else openRow o tx).2.savepoints.length
      ≤ 1 := by
  cases hopen : (openRow o tx).1 with
  | true =>
      obtain ⟨hlive, hafter⟩ := openRow_true hopen
      have hsaved : (openRow o tx).2.savepoints.length ≤ 1 := by
        rw [hafter, h.live hlive]
        exact Nat.le_refl 1
      have hwrite : (writeRow o e (openRow o tx).2).2.savepoints = (openRow o tx).2.savepoints := by
        cases hok : (writeRow o e (openRow o tx).2).1 with
        | true => exact (writeRow_true hok).2.1
        | false => exact (writeRow_false hok).2
      rw [if_pos rfl, hwrite]
      exact hsaved
  | false =>
      rw [if_neg Bool.false_ne_true]
      obtain ⟨-, -, hsame | ⟨hlive, hpushed⟩⟩ := openRow_false hopen
      · rw [hsame]
        exact h.single
      · rw [hpushed, h.live hlive]
        exact Nat.le_refl 1

theorem atRowEnd_persistRow (h : AtRowEnd tx) : AtRowEnd (persistRow o e tx).2 :=
  atRowEnd_closeRow (savepoints_written h) _

/-- A job that goes into `persisted` is in the log of a live transaction. -/
theorem persistRow_true (h : AtRowEnd tx) (hok : (persistRow o e tx).1 = true) :
    (persistRow o e tx).2.savepoints = [] ∧ e ∈ (persistRow o e tx).2.working.written := by
  have hend := atRowEnd_persistRow (o := o) (e := e) h
  unfold persistRow at hok hend ⊢
  dsimp only at hok hend ⊢
  cases hopen : (openRow o tx).1 with
  | false => simp [hopen, closeRow] at hok
  | true =>
      simp only [hopen, if_true] at hok hend ⊢
      cases hwrite : (writeRow o e (openRow o tx).2).1 with
      | false => simp [hwrite, closeRow] at hok
      | true =>
          simp only [hwrite, closeRow, if_true] at hok hend ⊢
          obtain ⟨hlive, hafter⟩ := Transaction.release_true hok
          refine ⟨hend.live ?_, ?_⟩
          · rw [hafter]
            exact hlive
          · rw [hafter]
            exact (writeRow_true hwrite).2.2

end RowEnd

/-- While the transaction is live, its log holds every job that went into `persisted`. -/
theorem persisted_subset_written (outcomes : List RowOutcome) (batch done : List Entry)
    (tx : Transaction Database) (hend : AtRowEnd tx) (hdone : tx.Holds fun db => done ⊆ db.written)
    (hlive : (persistRows outcomes batch tx).tx.aborted = false) :
    done ++ (persistRows outcomes batch tx).persisted ⊆
      (persistRows outcomes batch tx).tx.working.written := by
  induction batch generalizing outcomes done tx with
  | nil => simpa [persistRows] using hdone.working
  | cons e rest ih =>
      have hkept : (persistRow (outcomes.headD {}) e tx).2.Holds fun db => done ⊆ db.written :=
        holds_persistRow hdone (fun _ h => h)
          (fun db h => List.Subset.trans h (written_subset_updateStatement db))
          (fun db h => List.Subset.trans h (written_subset_insertStatement db))
      have hend' := atRowEnd_persistRow (o := outcomes.headD {}) (e := e) hend
      rw [persistRows] at hlive ⊢
      by_cases hok : (persistRow (outcomes.headD {}) e tx).1 = true
      · rw [if_pos hok] at hlive ⊢
        obtain ⟨hsaved, hmem⟩ := persistRow_true hend hok
        have hdone' : (persistRow (outcomes.headD {}) e tx).2.Holds
            fun db => done ++ [e] ⊆ db.written := by
          refine ⟨?_, ?_⟩
          · exact List.append_subset.mpr ⟨hkept.working, List.cons_subset.mpr
              ⟨hmem, List.nil_subset _⟩⟩
          · rw [hsaved]
            exact fun db hdb => by cases hdb
        simpa using ih outcomes.tail (done ++ [e]) _ hend' hdone' hlive
      · rw [if_neg hok] at hlive ⊢
        exact ih outcomes.tail done _ hend' hkept hlive

/-- The server does not acknowledge the COMMIT of an aborted transaction, in which jobs have been
written, as though it had committed them. -/
def BatchOutcome.Honest (o : BatchOutcome) (batch : List Entry) (db : Database) : Prop :=
  o.begins = true → o.commits = true → (o.loop batch db).tx.aborted = true →
    (o.loop batch db).persisted = []

instance (o : BatchOutcome) (batch : List Entry) (db : Database) :
    Decidable (o.Honest batch db) :=
  inferInstanceAs (Decidable (_ → _ → _ → _))

/-- A property that speaks of the jobs still to come is kept by a whole batch, whatever fails in it,
if every job of the batch can be skipped or written. -/
theorem runPersist_holds {P : List Entry → Database → Prop}
    (hskip : ∀ e rest db, P (e :: rest) db → P rest db)
    (hupdate : ∀ e rest db, P (e :: rest) db → P rest (updateStatement e db).2)
    (hinsert : ∀ e rest db, P (e :: rest) db → P rest (insertStatement e db).2)
    (o : BatchOutcome) {batch : List Entry} {db : Database} (h : P batch db) :
    P [] (runPersist o batch db).db := by
  have hbase : P [] db := by
    induction batch with
    | nil => exact h
    | cons e rest ih => exact ih (hskip e rest db h)
  have hrows : ∀ (batch : List Entry) (outcomes : List RowOutcome) (tx : Transaction Database),
      tx.Holds (P batch) → (persistRows outcomes batch tx).tx.Holds (P []) := by
    intro batch
    induction batch with
    | nil => exact fun _ _ h => h
    | cons e rest ih =>
        intro outcomes tx htx
        have hrow := holds_persistRow (o := outcomes.headD {}) htx (hskip e rest) (hupdate e rest)
          (hinsert e rest)
        rw [persistRows]
        split <;> exact ih outcomes.tail _ hrow
  cases hreached : o.pool.reached with
  | false =>
      rw [runPersist_of_not_reached hreached]
      exact hbase
  | true =>
      rw [runPersist_of_reached hreached, persistBatch]
      have hcommit : P [] ((o.loop batch db).tx.commit o.commits db).2 :=
        (hrows batch o.rows _ (Transaction.holds_opened h)).commit hbase o.commits
      split
      · dsimp only
        split <;> exact hcommit
      · exact hbase

theorem written_subset_runPersist (o : BatchOutcome) (batch : List Entry) (db : Database) :
    db.written ⊆ (runPersist o batch db).db.written :=
  runPersist_holds (P := fun _ db' => db.written ⊆ db'.written) (fun _ _ _ h => h)
    (fun _ _ db' h => List.Subset.trans h (written_subset_updateStatement db'))
    (fun _ _ db' h => List.Subset.trans h (written_subset_insertStatement db')) o
    (List.Subset.refl _)

/-- After an honest COMMIT, every job that will get a success result has been written. -/
theorem persisted_subset_runPersist {o : BatchOutcome} {batch : List Entry} {db : Database}
    (honest : o.Honest batch db) :
    (runPersist o batch db).persisted ⊆ (runPersist o batch db).db.written := by
  cases hreached : o.pool.reached with
  | false =>
      rw [runPersist_of_not_reached hreached]
      exact List.nil_subset _
  | true =>
      rw [runPersist_of_reached hreached, persistBatch]
      cases hbegins : o.begins with
      | false => exact List.nil_subset _
      | true =>
          cases hcommits : o.commits with
          | false => exact List.nil_subset _
          | true =>
              cases hab : (o.loop batch db).tx.aborted with
              | true =>
                  have hnone := honest hbegins hcommits hab
                  simp [Transaction.commit_of_aborted hab, hnone]
              | false =>
                  have hsub := persisted_subset_written o.rows batch [] _ (atRowEnd_opened db)
                    (Transaction.holds_opened (List.nil_subset _)) hab
                  change (o.loop batch db).persisted ⊆ (o.loop batch db).tx.working.written at hsub
                  simpa [Transaction.commit_of_live hab] using hsub

/-- The second job's savepoint fails: the first is `persisted`, and nothing is in the database. -/
example (e₁ e₂ : Entry) :
    runPersist { rows := [{}, { savepoint := false }] } [e₁, e₂] ⟨fun _ => none, []⟩ =
      ⟨[e₂], [e₁], ⟨fun _ => none, []⟩⟩ := rfl

end ExamVan.Queue
