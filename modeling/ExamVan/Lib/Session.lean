import ExamVan.Lib.Transaction

/-!
# A database session

A session is in a transaction or not. Outside of one a statement commits on its own, the statements
about savepoints are refused, and a COMMIT is answered but does nothing.
-/

structure Session (δ : Type*) where
  db : δ
  tx : Option (Transaction δ) := none

namespace Session

variable {δ β : Type*}

/-- `BEGIN`; a second one changes nothing. -/
def begins (ok : Bool) (s : Session δ) : Session δ :=
  match s.tx with
  | some _ => s
  | none => if ok then { s with tx := some (Transaction.opened s.db) } else s

def exec (ok : Bool) (statement : δ → β × δ) (s : Session δ) : Option β × Session δ :=
  match s.tx with
  | some tx => ((tx.exec ok statement).1, { s with tx := some (tx.exec ok statement).2 })
  | none => if ok then (some (statement s.db).1, { s with db := (statement s.db).2 }) else (none, s)

def savepoint (ok : Bool) (s : Session δ) : Bool × Session δ :=
  match s.tx with
  | some tx => ((tx.savepoint ok).1, { s with tx := some (tx.savepoint ok).2 })
  | none => (false, s)

def release (ok : Bool) (s : Session δ) : Bool × Session δ :=
  match s.tx with
  | some tx => ((tx.release ok).1, { s with tx := some (tx.release ok).2 })
  | none => (false, s)

def rollbackTo (ok : Bool) (s : Session δ) : Bool × Session δ :=
  match s.tx with
  | some tx => ((tx.rollbackTo ok).1, { s with tx := some (tx.rollbackTo ok).2 })
  | none => (false, s)

def commit (ok : Bool) (s : Session δ) : Bool × Session δ :=
  match s.tx with
  | some tx => ((tx.commit ok s.db).1, ⟨(tx.commit ok s.db).2, none⟩)
  | none => (ok, s)

/-- `ROLLBACK`, and what the end of the connection does. -/
def rollback (s : Session δ) : Session δ := { s with tx := none }

/-- A property of the committed database and of every state that the transaction may commit. -/
structure Holds (P : δ → Prop) (s : Session δ) : Prop where
  db : P s.db
  tx : ∀ tx ∈ s.tx, tx.Holds P

section Holds

variable {P : δ → Prop} {s : Session δ}

theorem Holds.begins (h : s.Holds P) (ok : Bool) : (s.begins ok).Holds P := by
  unfold Session.begins
  split
  · exact h
  · split
    · exact ⟨h.db, fun tx htx => Option.some.inj htx ▸ Transaction.holds_opened h.db⟩
    · exact h

theorem Holds.exec (h : s.Holds P) (ok : Bool) {statement : δ → β × δ}
    (hstatement : ∀ db, P db → P (statement db).2) : (s.exec ok statement).2.Holds P := by
  unfold Session.exec
  split
  next tx htx =>
    exact ⟨h.db, fun tx' htx' => Option.some.inj htx' ▸ (h.tx tx htx).exec ok hstatement⟩
  next hidle =>
    split
    · exact ⟨hstatement _ h.db, h.tx⟩
    · exact h

theorem Holds.savepoint (h : s.Holds P) (ok : Bool) : (s.savepoint ok).2.Holds P := by
  unfold Session.savepoint
  split
  next tx htx => exact ⟨h.db, fun tx' htx' => Option.some.inj htx' ▸ (h.tx tx htx).savepoint ok⟩
  next => exact h

theorem Holds.release (h : s.Holds P) (ok : Bool) : (s.release ok).2.Holds P := by
  unfold Session.release
  split
  next tx htx => exact ⟨h.db, fun tx' htx' => Option.some.inj htx' ▸ (h.tx tx htx).release ok⟩
  next => exact h

theorem Holds.rollbackTo (h : s.Holds P) (ok : Bool) : (s.rollbackTo ok).2.Holds P := by
  unfold Session.rollbackTo
  split
  next tx htx => exact ⟨h.db, fun tx' htx' => Option.some.inj htx' ▸ (h.tx tx htx).rollbackTo ok⟩
  next => exact h

theorem Holds.commit (h : s.Holds P) (ok : Bool) : (s.commit ok).2.Holds P := by
  unfold Session.commit
  split
  next tx htx =>
    exact ⟨(h.tx tx htx).commit h.db ok, fun tx' htx' => absurd htx' (by simp)⟩
  next => exact h

end Holds

/-! ### In a transaction -/

/-- In a transaction, on this database. -/
def OpenOn (base : δ) (s : Session δ) : Prop := ∃ tx, s = ⟨base, some tx⟩

section OpenOn

variable {base : δ} {s : Session δ}

theorem OpenOn.exec (h : s.OpenOn base) (ok : Bool) (statement : δ → β × δ) :
    (s.exec ok statement).2.OpenOn base := by
  obtain ⟨tx, rfl⟩ := h
  exact ⟨_, rfl⟩

theorem OpenOn.savepoint (h : s.OpenOn base) (ok : Bool) : (s.savepoint ok).2.OpenOn base := by
  obtain ⟨tx, rfl⟩ := h
  exact ⟨_, rfl⟩

theorem OpenOn.release (h : s.OpenOn base) (ok : Bool) : (s.release ok).2.OpenOn base := by
  obtain ⟨tx, rfl⟩ := h
  exact ⟨_, rfl⟩

theorem OpenOn.rollbackTo (h : s.OpenOn base) (ok : Bool) : (s.rollbackTo ok).2.OpenOn base := by
  obtain ⟨tx, rfl⟩ := h
  exact ⟨_, rfl⟩

end OpenOn

theorem begins_idle {s : Session δ} (h : s.tx = none) (ok : Bool) :
    s.begins ok = if ok then ⟨s.db, some (Transaction.opened s.db)⟩ else ⟨s.db, none⟩ := by
  obtain ⟨db, tx⟩ := s
  subst h
  cases ok <;> rfl

/-- A transaction without statements changes nothing. -/
theorem commit_begins {s : Session δ} (h : s.tx = none) (begun ok : Bool) :
    ((s.begins begun).commit ok).2 = s := by
  obtain ⟨db, tx⟩ := s
  subst h
  cases begun <;> cases ok <;> rfl

/-! ### The answer to COMMIT -/

section

variable {ok : Bool}

theorem commit_fst (s : Session δ) : (s.commit ok).1 = ok := by
  unfold commit
  split
  next tx _ =>
    unfold Transaction.commit
    cases ok <;> cases tx.aborted <;> rfl
  next => rfl

theorem commit_idle (s : Session δ) : (s.commit ok).2.tx = none := by
  unfold commit
  split
  · rfl
  next h => exact h

end

end Session
