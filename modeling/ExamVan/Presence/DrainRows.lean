import ExamVan.Presence.Drain

/-!
# The rows of a drained batch

A row in a live transaction is recorded or rejected, and leaves the transaction live if its savepoint
can be closed. A row in an aborted transaction is neither: its savepoint is refused, and so is its
`INSERT`. So every row is settled exactly if every savepoint is set and every row before the last is
closed, and the last one as well if there is anything to commit.
-/

namespace ExamVan.Presence

open ByteString Queue Helpers

/-- A well-formed payload of a batch, with what is met on its account. -/
structure Entry where
  payload : Payload
  hb : HeartbeatPayload
  outcome : HeartbeatOutcome
  push : RedisStep

def entries : List HeartbeatOutcome → List RedisStep → List Payload → List Entry
  | _, _, [] => []
  | outcomes, steps, p :: rest =>
      match parseHeartbeatPayload p.text with
      | none => entries outcomes.tail steps.tail rest
      | some hb =>
          ⟨p, hb, outcomes.headD {}, steps.headD {}⟩ :: entries outcomes.tail steps.tail rest

namespace Entry

variable (e : Entry) (db : MonitorDb)

def row (s : Session MonitorDb) : RowReport × Session MonitorDb :=
  drainRow e.outcome e.payload.ticket e.hb s

def asksPlaceholder : Bool := needEmpty (some (latestStatement e.hb db).1)

/-- Every statement of the row between its savepoint and the end succeeds. -/
def passes : Bool :=
  e.outcome.insert && e.outcome.select && (!e.asksPlaceholder db || e.outcome.placeholder)

/-- The database after the row. -/
def recorded : MonitorDb :=
  let logged := (logStatement e.payload.ticket e.hb (formatIsoUtc e.outcome.now) db).2
  if e.asksPlaceholder db then
    (placeholderStatement e.hb (formatIsoUtc e.outcome.now) logged).2
  else logged

/-- `ROLLBACK TO` and `RELEASE` both succeed. -/
def closes : Bool := e.outcome.rollback && e.outcome.rollbackRelease

end Entry

/-- The loop over the well-formed payloads. -/
def drainEntries : List Entry → Session MonitorDb → List RowReport × Session MonitorDb
  | [], s => ([], s)
  | e :: rest, s => ((e.row s).1 :: (drainEntries rest (e.row s).2).1,
      (drainEntries rest (e.row s).2).2)

theorem drainRows_eq (outcomes : List HeartbeatOutcome) (steps : List RedisStep)
    (payloads : List Payload) (s : Session MonitorDb) :
    drainRows outcomes payloads s = drainEntries (entries outcomes steps payloads) s := by
  induction payloads generalizing outcomes steps s with
  | nil => rfl
  | cons p rest ih =>
      rw [drainRows, entries]
      cases parseHeartbeatPayload p.text with
      | none => exact ih outcomes.tail steps.tail s
      | some hb =>
          simp only [drainEntries, Entry.row]
          rw [ih outcomes.tail steps.tail]

/-! ### One row -/

section

variable {e : Entry} {base db : MonitorDb} {s : Session MonitorDb} {P : MonitorDb → Prop}

theorem recorded_recorded : (e.recorded db).recorded = db.recorded ++ [e.payload.ticket] := by
  unfold Entry.recorded
  dsimp only
  split <;> rfl

/-- What every statement of a row preserves, the row preserves. -/
theorem row_induction {Q : Session MonitorDb → Prop} (h : Q s)
    (hsavepoint : ∀ s ok, Q s → Q (s.savepoint ok).2) (hrelease : ∀ s ok, Q s → Q (s.release ok).2)
    (hrollback : ∀ s ok, Q s → Q (s.rollbackTo ok).2)
    (hlog : ∀ s ok, Q s →
      Q (s.exec ok (logStatement e.payload.ticket e.hb (formatIsoUtc e.outcome.now))).2)
    (hlatest : ∀ s ok, Q s → Q (s.exec ok (latestStatement e.hb)).2)
    (hplaceholder : ∀ s ok, Q s →
      Q (s.exec ok (placeholderStatement e.hb (formatIsoUtc e.outcome.now))).2) :
    Q (e.row s).2 := by
  have hins := hlog _ e.outcome.insert (hsavepoint _ e.outcome.savepoint h)
  have hplaced : ∀ s, Q s → Q (placeholderRow e.outcome e.hb s).2 := by
    intro s hs
    unfold placeholderRow
    dsimp only
    split
    · exact hplaceholder _ _ (hlatest _ _ hs)
    · exact hlatest _ _ hs
  unfold Entry.row drainRow
  dsimp only
  split
  · split
    · exact hrelease _ _ (hplaced _ hins)
    · exact hrelease _ _ (hrollback _ _ (hplaced _ hins))
  · exact hrelease _ _ (hrollback _ _ hins)

/-- What holds with and without the row of the log holds after the row. -/
theorem holds_row (h : s.Holds P)
    (hlog : ∀ db, P db → P (logStatement e.payload.ticket e.hb (formatIsoUtc e.outcome.now) db).2)
    (hplaceholder : ∀ db, P db → P (placeholderStatement e.hb (formatIsoUtc e.outcome.now) db).2) :
    (e.row s).2.Holds P :=
  row_induction h (fun _ ok hs => hs.savepoint ok) (fun _ ok hs => hs.release ok)
    (fun _ ok hs => hs.rollbackTo ok) (fun _ ok hs => hs.exec ok hlog)
    (fun _ ok hs => hs.exec ok fun _ hdb => hdb) (fun _ ok hs => hs.exec ok hplaceholder)

theorem openOn_row (h : s.OpenOn base) : (e.row s).2.OpenOn base :=
  row_induction h (fun _ ok hs => hs.savepoint ok) (fun _ ok hs => hs.release ok)
    (fun _ ok hs => hs.rollbackTo ok) (fun _ ok hs => hs.exec ok _) (fun _ ok hs => hs.exec ok _)
    (fun _ ok hs => hs.exec ok _)

/-! ### One row in a transaction -/

variable {tx : Transaction MonitorDb}

theorem row_saved : (e.row ⟨base, some tx⟩).1.saved = (!tx.aborted && e.outcome.savepoint) := by
  simp only [Entry.row, drainRow, Session.savepoint, Transaction.savepoint]
  cases tx.aborted <;> cases e.outcome.savepoint <;> rfl

theorem row_ticket : (e.row s).1.ticket = e.payload.ticket := rfl

/-- A row without its savepoint changes nothing that could be committed. -/
theorem row_unsaved (h : (e.row ⟨base, some tx⟩).1.saved = false) :
    (e.row ⟨base, some tx⟩).1.ok = false ∧
      ∀ P, (Session.mk base (some tx)).Holds P → (e.row ⟨base, some tx⟩).2.Holds P := by
  have hrefused : ((Session.mk base (some tx)).savepoint e.outcome.savepoint).2 =
      ⟨base, some tx.abort⟩ := by
    rw [row_saved] at h
    simp only [Session.savepoint, Transaction.savepoint]
    cases htx : tx.aborted <;> cases hsave : e.outcome.savepoint <;> simp_all
  have hinsert : ∀ statement : MonitorDb → Unit × MonitorDb,
      (Session.mk base (some tx.abort)).exec e.outcome.insert statement =
        (none, ⟨base, some tx.abort⟩) := fun _ => rfl
  unfold Entry.row drainRow
  simp only [hrefused, hinsert, Option.isSome_none, Bool.false_eq_true, if_false, true_and]
  intro P hP
  have habort : (Session.mk base (some tx.abort)).Holds P :=
    ⟨hP.db, fun tx' htx' => Option.some.inj htx' ▸ (hP.tx tx rfl).abort⟩
  exact (habort.rollbackTo _).release _

theorem placeholderRow_open (db saved : MonitorDb) :
    placeholderRow e.outcome e.hb ⟨base, some ⟨db, [saved], false⟩⟩ =
      if e.outcome.select && (!e.asksPlaceholder db || e.outcome.placeholder) then
        (true, ⟨base, some ⟨if e.asksPlaceholder db then
          (placeholderStatement e.hb (formatIsoUtc e.outcome.now) db).2 else db, [saved], false⟩⟩)
      else (false, ⟨base, some ⟨db, [saved], true⟩⟩) := by
  have hask : needEmpty (some (latestStatement e.hb db).1) = e.asksPlaceholder db := rfl
  have hsame : (latestStatement e.hb db).2 = db := rfl
  simp only [placeholderRow, Session.exec, Transaction.exec]
  cases hselect : e.outcome.select with
  | false => simp [needEmpty, Transaction.abort]
  | true =>
      simp only [Bool.not_true, Bool.or_self, Bool.false_eq_true, if_false, hask, hsame]
      cases hneed : e.asksPlaceholder db with
      | false => simp
      | true => cases e.outcome.placeholder <;> simp [Transaction.abort]

/-- A row that failed behind its savepoint is taken back, or leaves the transaction aborted. -/
theorem close_failed (e : Entry) (base db work : MonitorDb) (aborted : Bool) :
    ∃ tx', (((Session.mk base (some ⟨work, [db], aborted⟩)).rollbackTo
        e.outcome.rollback).2.release e.outcome.rollbackRelease).2 = ⟨base, some tx'⟩ ∧
      if e.closes then tx' = ⟨db, [], false⟩ else tx'.aborted = true := by
  unfold Entry.closes
  cases hback : e.outcome.rollback with
  | false => exact ⟨_, rfl, rfl⟩
  | true =>
      cases hrelease : e.outcome.rollbackRelease with
      | false => exact ⟨_, rfl, rfl⟩
      | true => exact ⟨_, rfl, rfl⟩

/-- A row in a live transaction. -/
theorem row_live (base db : MonitorDb) (hsave : e.outcome.savepoint = true) :
    (e.passes db = true → e.row ⟨base, some ⟨db, [], false⟩⟩ =
      (⟨e.payload.ticket, true, true⟩, ⟨base, some (if e.outcome.release then
        ⟨e.recorded db, [], false⟩ else ⟨e.recorded db, [db], true⟩)⟩)) ∧
      (e.passes db = false → ∃ tx', e.row ⟨base, some ⟨db, [], false⟩⟩ =
          (⟨e.payload.ticket, true, false⟩, ⟨base, some tx'⟩) ∧
        (if e.closes then tx' = ⟨db, [], false⟩ else tx'.aborted = true)) := by
  have hsaved : (Session.mk base (some ⟨db, [], false⟩)).savepoint e.outcome.savepoint =
      (true, ⟨base, some ⟨db, [db], false⟩⟩) := by
    rw [hsave]
    rfl
  unfold Entry.row drainRow Entry.passes
  simp only [hsaved]
  cases hinsert : e.outcome.insert with
  | false =>
      refine ⟨fun h => absurd h (by simp), fun _ => ?_⟩
      obtain ⟨tx', hafter, hclose⟩ := close_failed e base db db true
      exact ⟨tx', congrArg (Prod.mk _) hafter, hclose⟩
  | true =>
      generalize hlogged :
        (logStatement e.payload.ticket e.hb (formatIsoUtc e.outcome.now) db).2 = logged
      have hexec : (Session.mk base (some ⟨db, [db], false⟩)).exec true
          (logStatement e.payload.ticket e.hb (formatIsoUtc e.outcome.now)) =
          (some (), ⟨base, some ⟨logged, [db], false⟩⟩) := by
        rw [← hlogged]
        rfl
      have hask : e.asksPlaceholder logged = e.asksPlaceholder db := by
        rw [← hlogged]
        rfl
      simp only [hexec, Option.isSome_some, if_true, placeholderRow_open, hask, Bool.true_and]
      cases hpass : e.outcome.select && (!e.asksPlaceholder db || e.outcome.placeholder) with
      | false =>
          refine ⟨fun h => absurd h (by simp), fun _ => ?_⟩
          obtain ⟨tx', hafter, hclose⟩ := close_failed e base db logged true
          exact ⟨tx', congrArg (Prod.mk _) hafter, hclose⟩
      | true =>
          refine ⟨fun _ => ?_, fun h => absurd h (by simp)⟩
          simp only [if_true, Entry.recorded, hlogged]
          cases e.outcome.release <;> rfl

/-! ### The rows of a transaction -/

/-- What makes every row of a transaction recorded or rejected. -/
def RowsMet : Bool → MonitorDb → List Entry → Prop
  | _, _, [] => True
  | clean, db, e :: rest =>
      e.outcome.savepoint = true ∧
        if e.passes db then e.outcome.release = true ∧ RowsMet false (e.recorded db) rest
        -- nothing is lost with the transaction if no row has passed
        else e.closes = true ∧ RowsMet clean db rest ∨ clean = true ∧ rest = []

theorem openOn_drainEntries (es : List Entry) (h : s.OpenOn base) :
    (drainEntries es s).2.OpenOn base := by
  induction es generalizing s with
  | nil => exact h
  | cons e rest ih => exact ih (openOn_row h)

/-- After an aborted transaction the next savepoint is refused. -/
theorem not_saved_of_aborted (base : MonitorDb) {es : List Entry} (hes : es ≠ []) (habort : tx.aborted = true) :
    ∃ r ∈ (drainEntries es ⟨base, some tx⟩).1, r.saved = false := by
  obtain ⟨e, rest, rfl⟩ := List.exists_cons_of_ne_nil hes
  refine ⟨_, List.mem_cons_self, ?_⟩
  rw [row_saved, habort]
  rfl

theorem rowsMet_iff (es : List Entry) (clean : Bool) {tx' : Transaction MonitorDb}
    (htx : (drainEntries es ⟨base, some ⟨db, [], false⟩⟩).2 = ⟨base, some tx'⟩) :
    RowsMet clean db es ↔
      (∀ r ∈ (drainEntries es ⟨base, some ⟨db, [], false⟩⟩).1, r.saved = true) ∧
        (tx'.aborted = true → clean = true ∧
          ∀ r ∈ (drainEntries es ⟨base, some ⟨db, [], false⟩⟩).1, r.ok = false) := by
  induction es generalizing clean db with
  | nil =>
      obtain rfl : (⟨db, [], false⟩ : Transaction MonitorDb) = tx' := by
        simpa [drainEntries] using htx
      simp [RowsMet, drainEntries]
  | cons e rest ih =>
      rw [RowsMet]
      cases hsave : e.outcome.savepoint with
      | false =>
          have hunsaved : (e.row ⟨base, some ⟨db, [], false⟩⟩).1.saved = false := by
            rw [row_saved, hsave]
            rfl
          simp [drainEntries, hunsaved]
      | true =>
          obtain ⟨hpasses, hfails⟩ := row_live base db hsave
          cases hpass : e.passes db with
          | true =>
              have hrow := hpasses hpass
              rw [drainEntries, hrow] at htx ⊢
              cases hrelease : e.outcome.release with
              | true =>
                  rw [hrelease] at htx
                  have hrest := ih false htx
                  simp only [if_true, true_and, hrest, Bool.false_eq_true, false_and, imp_false,
                    List.forall_mem_cons, Bool.true_eq_false, and_false]
              | false =>
                  rw [hrelease] at htx
                  simp only [Bool.false_eq_true, if_false, if_true, true_and, false_and,
                    List.forall_mem_cons, Bool.true_eq_false, and_false, imp_false, false_iff] at htx ⊢
                  rintro ⟨hsaved, hlive⟩
                  cases rest with
                  | nil =>
                      obtain rfl : (⟨e.recorded db, [db], true⟩ : Transaction MonitorDb) = tx' := by
                        simpa [drainEntries] using htx
                      exact hlive rfl
                  | cons e₂ rest =>
                      obtain ⟨r, hr, hno⟩ := not_saved_of_aborted base (List.cons_ne_nil e₂ rest)
                        (show (Transaction.mk (e.recorded db) [db] true).aborted = true from rfl)
                      exact absurd (hsaved r hr) (by simp [hno])
          | false =>
              obtain ⟨tx₁, hrow, hclose⟩ := hfails hpass
              rw [drainEntries, hrow] at htx ⊢
              cases hcloses : e.closes with
              | true =>
                  rw [hcloses, if_pos rfl] at hclose
                  subst hclose
                  have hrest := ih clean htx
                  simp only [true_and, Bool.false_eq_true, if_false, List.forall_mem_cons]
                  rw [← hrest]
                  refine or_iff_left_of_imp ?_
                  rintro ⟨-, rfl⟩
                  trivial
              | false =>
                  rw [hcloses] at hclose
                  simp only [Bool.false_eq_true, if_false, false_and, false_or, true_and,
                    List.forall_mem_cons] at hclose ⊢
                  cases rest with
                  | nil =>
                      obtain rfl : tx₁ = tx' := by simpa [drainEntries] using htx
                      simp [drainEntries, hclose]
                  | cons e₂ rest =>
                      obtain ⟨r, hr, hno⟩ := not_saved_of_aborted base
                        (List.cons_ne_nil e₂ rest) hclose
                      simp only [reduceCtorEq, and_false, false_iff]
                      rintro ⟨hsaved, -⟩
                      exact absurd (hsaved r hr) (by simp [hno])

/-- If every savepoint is set, a transaction that is live at its end has the rows that passed. -/
theorem recorded_of_saved (es : List Entry) {tx' : Transaction MonitorDb}
    (htx : (drainEntries es ⟨base, some ⟨db, [], false⟩⟩).2 = ⟨base, some tx'⟩)
    (hsaved : ∀ r ∈ (drainEntries es ⟨base, some ⟨db, [], false⟩⟩).1, r.saved = true)
    (hlive : tx'.aborted = false) :
    tx'.working.recorded = db.recorded ++
      ((drainEntries es ⟨base, some ⟨db, [], false⟩⟩).1.filter RowReport.ok).map RowReport.ticket := by
  induction es generalizing db with
  | nil =>
      obtain rfl : (⟨db, [], false⟩ : Transaction MonitorDb) = tx' := by
        simpa [drainEntries] using htx
      simp [drainEntries]
  | cons e rest ih =>
      have hnext : ∀ (report : RowReport) (tx₁ : Transaction MonitorDb),
          e.row ⟨base, some ⟨db, [], false⟩⟩ = (report, ⟨base, some tx₁⟩) →
            tx₁.aborted = false := by
        intro report tx₁ hrow
        rw [drainEntries, hrow] at htx hsaved
        cases rest with
        | nil =>
            obtain rfl : tx₁ = tx' := by simpa [drainEntries] using htx
            exact hlive
        | cons e₂ rest =>
            by_contra habort
            obtain ⟨r, hr, hno⟩ := not_saved_of_aborted base (List.cons_ne_nil e₂ rest)
              (eq_true_of_ne_false habort)
            exact absurd (hsaved r (List.mem_cons_of_mem _ hr)) (by simp [hno])
      have hsave : e.outcome.savepoint = true := by
        have hfirst := hsaved _ List.mem_cons_self
        rw [row_saved] at hfirst
        exact hfirst
      obtain ⟨hpasses, hfails⟩ := row_live base db hsave
      cases hpass : e.passes db with
      | true =>
          have hrow := hpasses hpass
          have hrelease : e.outcome.release = true := by
            by_contra hno
            rw [if_neg hno] at hrow
            exact absurd (hnext _ _ hrow) (by simp)
          rw [hrelease, if_pos rfl] at hrow
          rw [drainEntries, hrow] at htx hsaved ⊢
          rw [ih htx (fun r hr => hsaved r (List.mem_cons_of_mem _ hr)), recorded_recorded]
          simp
      | false =>
          obtain ⟨tx₁, hrow, hclose⟩ := hfails hpass
          have hcloses : e.closes = true := by
            by_contra hno
            rw [if_neg hno] at hclose
            exact absurd (hnext _ _ hrow) (by simp [hclose])
          rw [if_pos hcloses] at hclose
          subst hclose
          rw [drainEntries, hrow] at htx hsaved ⊢
          rw [ih htx fun r hr => hsaved r (List.mem_cons_of_mem _ hr)]
          simp

/-- A payload without a savepoint is not recorded, and neither is one of another batch. -/
theorem count_drainEntries (es : List Entry) {t n : Nat} (h : s.OpenOn base)
    (hcount : s.Holds fun db => db.recorded.count t = n)
    (hno : ∀ r ∈ (drainEntries es s).1, r.ticket = t → r.saved = false) :
    (drainEntries es s).2.Holds fun db => db.recorded.count t = n := by
  induction es generalizing s with
  | nil => exact hcount
  | cons e rest ih =>
      refine ih (openOn_row h) ?_ fun r hr => hno r (List.mem_cons_of_mem _ hr)
      by_cases ht : e.payload.ticket = t
      · obtain ⟨tx, rfl⟩ := h
        exact (row_unsaved (hno _ List.mem_cons_self ht)).2 _ hcount
      · refine holds_row hcount (fun db hdb => ?_) fun db hdb => hdb
        simpa [logStatement, List.count_singleton, ht] using hdb

/-! ### Rows outside of a transaction -/

theorem placeholderRow_idle (e : Entry) (db : MonitorDb) :
    ∃ ok db', placeholderRow e.outcome e.hb ⟨db, none⟩ = (ok, ⟨db', none⟩) ∧
      db'.recorded = db.recorded := by
  have hlatest : ((Session.mk db none).exec e.outcome.select (latestStatement e.hb)).2 =
      ⟨db, none⟩ := by
    cases e.outcome.select <;> rfl
  unfold placeholderRow
  simp only [hlatest]
  split
  · cases e.outcome.placeholder with
    | false => exact ⟨_, _, rfl, rfl⟩
    | true => exact ⟨_, _, rfl, rfl⟩
  · exact ⟨_, _, rfl, rfl⟩

/-- Without a transaction a row is recorded as soon as it is inserted. -/
theorem row_idle (e : Entry) (db : MonitorDb) :
    (e.row ⟨db, none⟩).1.saved = false ∧ ∃ db', (e.row ⟨db, none⟩).2 = ⟨db', none⟩ ∧
      db'.recorded = db.recorded ++ if e.outcome.insert then [e.payload.ticket] else [] := by
  refine ⟨rfl, ?_⟩
  unfold Entry.row drainRow
  simp only [Session.savepoint]
  cases e.outcome.insert with
  | false => exact ⟨db, rfl, by simp⟩
  | true =>
      obtain ⟨ok, db', hplace, hrecorded⟩ := placeholderRow_idle e
        (logStatement e.payload.ticket e.hb (formatIsoUtc e.outcome.now) db).2
      have hexec : (Session.mk db none).exec true
          (logStatement e.payload.ticket e.hb (formatIsoUtc e.outcome.now)) =
          (some (), ⟨(logStatement e.payload.ticket e.hb (formatIsoUtc e.outcome.now) db).2, none⟩) :=
        rfl
      simp only [hexec, Option.isSome_some, if_true, hplace]
      refine ⟨db', ?_, hrecorded⟩
      cases ok <;> rfl

theorem drainEntries_idle (es : List Entry) (db : MonitorDb) :
    (∀ r ∈ (drainEntries es ⟨db, none⟩).1, r.saved = false) ∧
      ∃ db', (drainEntries es ⟨db, none⟩).2 = ⟨db', none⟩ ∧ db'.recorded = db.recorded ++
        (es.filter fun e => e.outcome.insert).map fun e => e.payload.ticket := by
  induction es generalizing db with
  | nil => exact ⟨fun r hr => absurd hr List.not_mem_nil, db, rfl, by simp⟩
  | cons e rest ih =>
      obtain ⟨hsaved, db₁, hrow, hrecorded⟩ := row_idle e db
      obtain ⟨hrest, db', hafter, hlater⟩ := ih db₁
      rw [drainEntries, hrow]
      refine ⟨List.forall_mem_cons.mpr ⟨hsaved, hrest⟩, db', hafter, ?_⟩
      rw [hlater, hrecorded, List.append_assoc]
      cases hinsert : e.outcome.insert <;> simp [hinsert]

end

end ExamVan.Presence
