import Mathlib.Init

/-!
# One transaction of a database session

A transaction on databases of any type, with savepoints of one name. The server answers every
statement with success or with an error; an error leaves the transaction aborted, and an aborted
transaction refuses everything but a rollback. A COMMIT of an aborted transaction is answered like
any other COMMIT and rolls back. A COMMIT that fails commits nothing.
-/

/-- The state of a transaction between two of its statements. -/
structure Transaction (δ : Type*) where
  working : δ
  savepoints : List δ
  aborted : Bool

namespace Transaction

variable {δ β : Type*}

/-- After `BEGIN`. -/
def opened (db : δ) : Transaction δ := ⟨db, [], false⟩

def abort (tx : Transaction δ) : Transaction δ := { tx with aborted := true }

/-- A statement with its effect and result; `ok` is what the server answers if it is asked at all. -/
def exec (ok : Bool) (statement : δ → β × δ) (tx : Transaction δ) : Option β × Transaction δ :=
  if tx.aborted || !ok then (none, tx.abort)
  else (some (statement tx.working).1, { tx with working := (statement tx.working).2 })

def savepoint (ok : Bool) (tx : Transaction δ) : Bool × Transaction δ :=
  if tx.aborted || !ok then (false, tx.abort)
  else (true, { tx with savepoints := tx.working :: tx.savepoints })

/-- `RELEASE SAVEPOINT`: forgets the last savepoint and keeps what was done since. -/
def release (ok : Bool) (tx : Transaction δ) : Bool × Transaction δ :=
  if tx.aborted || !ok then (false, tx.abort)
  else
    match tx.savepoints with
    | [] => (false, tx.abort)
    | _ :: older => (true, { tx with savepoints := older })

/-- `ROLLBACK TO SAVEPOINT`: returns to the last savepoint, from an aborted transaction too, and
keeps it. -/
def rollbackTo (ok : Bool) (tx : Transaction δ) : Bool × Transaction δ :=
  if !ok then (false, tx.abort)
  else
    match tx.savepoints with
    | [] => (false, tx.abort)
    | saved :: _ => (true, { tx with working := saved, aborted := false })

/-- The server's answer to `COMMIT` and the database after it, which was `base` before `BEGIN`. -/
def commit (ok : Bool) (base : δ) (tx : Transaction δ) : Bool × δ :=
  if !ok then (false, base) else if tx.aborted then (true, base) else (true, tx.working)

/-! ### Database states within a transaction -/

/-- A property of the working state and of every state a savepoint would bring back. -/
structure Holds (P : δ → Prop) (tx : Transaction δ) : Prop where
  working : P tx.working
  savepoints : ∀ db ∈ tx.savepoints, P db

section Holds

variable {P : δ → Prop} {tx : Transaction δ}

theorem holds_opened {db : δ} (h : P db) : (opened db).Holds P :=
  ⟨h, fun _ hmem => by cases hmem⟩

theorem Holds.imp {Q : δ → Prop} (h : tx.Holds P) (himp : ∀ db, P db → Q db) : tx.Holds Q :=
  ⟨himp _ h.working, fun db hdb => himp db (h.savepoints db hdb)⟩

theorem Holds.abort (h : tx.Holds P) : tx.abort.Holds P := ⟨h.working, h.savepoints⟩

theorem Holds.exec (h : tx.Holds P) (ok : Bool) {statement : δ → β × δ}
    (hstatement : ∀ db, P db → P (statement db).2) : (tx.exec ok statement).2.Holds P := by
  unfold Transaction.exec
  split
  · exact h.abort
  · exact ⟨hstatement _ h.working, h.savepoints⟩

theorem Holds.savepoint (h : tx.Holds P) (ok : Bool) : (tx.savepoint ok).2.Holds P := by
  unfold Transaction.savepoint
  split
  · exact h.abort
  · exact ⟨h.working, List.forall_mem_cons.mpr ⟨h.working, h.savepoints⟩⟩

theorem Holds.release (h : tx.Holds P) (ok : Bool) : (tx.release ok).2.Holds P := by
  unfold Transaction.release
  split
  · exact h.abort
  · split
    · exact h.abort
    · next hsaved =>
        have hall := h.savepoints
        rw [hsaved] at hall
        exact ⟨h.working, (List.forall_mem_cons.mp hall).2⟩

theorem Holds.rollbackTo (h : tx.Holds P) (ok : Bool) : (tx.rollbackTo ok).2.Holds P := by
  unfold Transaction.rollbackTo
  split
  · exact h.abort
  · split
    · exact h.abort
    · next hsaved =>
        have hall := h.savepoints
        rw [hsaved] at hall
        exact ⟨(List.forall_mem_cons.mp hall).1, h.savepoints⟩

/-- Whatever the server answers, `COMMIT` leaves a database with the property if the transaction
began with one. -/
theorem Holds.commit (h : tx.Holds P) {base : δ} (hbase : P base) (ok : Bool) :
    P (tx.commit ok base).2 := by
  unfold Transaction.commit
  split
  · exact hbase
  · split
    · exact hbase
    · exact h.working

end Holds

/-! ### Statements that succeed -/

theorem exec_eq_some {ok : Bool} {statement : δ → β × δ} {tx : Transaction δ} {result : β}
    (h : (tx.exec ok statement).1 = some result) :
    tx.aborted = false ∧ (statement tx.working).1 = result ∧
      (tx.exec ok statement).2 = { tx with working := (statement tx.working).2 } := by
  unfold exec at h ⊢
  split at h
  · cases h
  · next hcond =>
      have hlive : tx.aborted = false := by
        cases hab : tx.aborted <;> simp [hab] at hcond ⊢
      rw [if_neg hcond]
      exact ⟨hlive, Option.some.inj h, rfl⟩

theorem exec_none {ok : Bool} {statement : δ → β × δ} {tx : Transaction δ}
    (h : (tx.exec ok statement).1 = none) : (tx.exec ok statement).2 = tx.abort := by
  unfold exec at h ⊢
  split at h
  · next hcond => rw [if_pos hcond]
  · cases h

theorem savepoint_true {ok : Bool} {tx : Transaction δ} (h : (tx.savepoint ok).1 = true) :
    tx.aborted = false ∧
      (tx.savepoint ok).2 = { tx with savepoints := tx.working :: tx.savepoints } := by
  unfold savepoint at h ⊢
  cases hab : tx.aborted <;> cases ok <;> simp [hab] at h ⊢

theorem savepoint_false {ok : Bool} {tx : Transaction δ} (h : (tx.savepoint ok).1 = false) :
    (tx.savepoint ok).2 = tx.abort := by
  unfold savepoint at h ⊢
  split at h
  · next hcond => rw [if_pos hcond]
  · cases h

theorem release_true {ok : Bool} {tx : Transaction δ} (h : (tx.release ok).1 = true) :
    tx.aborted = false ∧ (tx.release ok).2 = { tx with savepoints := tx.savepoints.tail } := by
  unfold release at h ⊢
  cases hab : tx.aborted <;> cases ok <;> cases hsaved : tx.savepoints <;>
    simp [hab, hsaved] at h ⊢

theorem release_false {ok : Bool} {tx : Transaction δ} (h : (tx.release ok).1 = false) :
    (tx.release ok).2 = tx.abort := by
  unfold release at h ⊢
  cases hab : tx.aborted <;> cases ok <;> cases hsaved : tx.savepoints <;>
    simp [hab, hsaved] at h ⊢

theorem rollbackTo_true {ok : Bool} {tx : Transaction δ} (h : (tx.rollbackTo ok).1 = true) :
    ∃ saved older, tx.savepoints = saved :: older ∧
      (tx.rollbackTo ok).2 = { tx with working := saved, aborted := false } := by
  unfold rollbackTo at h ⊢
  cases ok <;> cases hsaved : tx.savepoints <;> simp [hsaved] at h ⊢

theorem rollbackTo_false {ok : Bool} {tx : Transaction δ} (h : (tx.rollbackTo ok).1 = false) :
    (tx.rollbackTo ok).2 = tx.abort := by
  unfold rollbackTo at h ⊢
  cases ok <;> cases hsaved : tx.savepoints <;> simp [hsaved] at h ⊢

/-- What an acknowledged COMMIT of a live transaction leaves behind. -/
theorem commit_of_live {base : δ} {tx : Transaction δ} (hlive : tx.aborted = false) :
    tx.commit true base = (true, tx.working) := by
  simp [commit, hlive]

theorem commit_of_aborted {base : δ} {tx : Transaction δ} (habort : tx.aborted = true) (ok : Bool) :
    tx.commit ok base = (ok, base) := by
  cases ok <;> simp [commit, habort]

end Transaction
