import ExamVan.Admin.Lifecycle
import ExamVan.Lib.Session

/-!
# Delegating an exam

The transaction of `delegate_exam` on a database in which every statement may succeed, fail or throw.
What throws ends the connection, and its transaction with it. The new owner is checked before the
transaction begins and the supervisors within it. Both are compared with the institution of the
caller, for which a query that fails or finds no row leaves the empty text.
-/

namespace ExamVan.Admin

open ByteString Queue Models Http Api

/-! ### The database -/

structure Tables where
  exams : List Exam
  /-- the pairs of `exam_pengawas` -/
  pengawas : List (Int32 × Int32)

inductive Outcome
  | succeeds
  | fails
  | throws
  deriving DecidableEq

/-- The users, and how each statement ends. -/
structure DelegateEnv where
  users : List Http.AdminUser
  outcome : Nat → Outcome

structure DelegateDb where
  session : Session Tables
  /-- the statements so far -/
  asked : Nat := 0

namespace DelegateEnv

variable (E : DelegateEnv)

def userOf (id : Int32) : Option Http.AdminUser := E.users.find? fun u => u.id = id

def rowOf (idText : Bytes) : Option Http.AdminUser :=
  E.users.find? fun u => intText u.id.toInt = idText

/-- One statement, by what it does if it succeeds or fails. -/
def ask (f : Bool → Session Tables → Option Rows × Session Tables) (s : DelegateDb) :
    Option (Option Rows) × DelegateDb :=
  match E.outcome s.asked with
  | .throws => (none, ⟨s.session.rollback, s.asked + 1⟩)
  | out =>
      let r := f (out = .succeeds) s.session
      (some r.1, ⟨r.2, s.asked + 1⟩)

def select (rows : Rows) (ok : Bool) (s : Session Tables) : Option Rows × Session Tables :=
  s.exec ok fun t => (rows, t)

def write (f : Tables → Tables) (ok : Bool) (s : Session Tables) : Option Rows × Session Tables :=
  s.exec ok fun t => ([], f t)

/-- The tables as the session sees them. -/
def current (s : Session Tables) : Tables :=
  match s.tx with
  | none => s.db
  | some tx => tx.working

def readId (text : Bytes) : Int32 := (stoi text).getD 0

def setOwner (id : Int32) (owner : Option Int32) (t : Tables) : Tables :=
  { t with exams := t.exams.map fun e => if e.id = id then { e with delegatedTo := owner } else e }

def dropPengawas (id : Int32) (t : Tables) : Tables :=
  { t with pengawas := t.pengawas.filter (·.1 ≠ id) }

def addPengawas (row : Int32 × Int32) (t : Tables) : Tables :=
  { t with pengawas := t.pengawas ++ [row] }

/-- An insert, which the primary key may refuse. -/
def insertRow (row : Int32 × Int32) (ok : Bool) (s : Session Tables) :
    Option Rows × Session Tables :=
  write (addPengawas row) (ok && row ∉ (current s).pengawas) s

def param (params : List Bytes) : Bytes := params.head?.getD []

def examStatement (q : ExamStatement) (idText : Bytes) (params : List Bytes) :
    Bool → Session Tables → Option Rows × Session Tables :=
  let id := readId idText
  match q with
  | .delegateTo => write (setOwner id (some (readId (param params))))
  | .undelegate => write (setOwner id none)
  | .deletePengawas => write (dropPengawas id)
  | .insertPengawas => insertRow (id, readId (param params))
  -- no other statement about an exam is sent
  | _ => select []

def otherStatement (q : OtherStatement) (params : List Bytes) :
    Bool → Session Tables → Option Rows × Session Tables :=
  match q with
  | .begin => fun ok s => (if ok then some [] else none, s.begins ok)
  | .commit => fun ok s => (if (s.commit ok).1 then some [] else none, (s.commit ok).2)
  | .rollback => fun _ s => (some [], s.rollback)
  | .roleOf =>
      select ((E.rowOf (param params)).toList.map fun u => [u.instansi, u.role, u.status])
  | .instansi => select ((E.rowOf (param params)).toList.map fun u => [u.instansi])
  | _ => select []

def perform : (o : Op) → DelegateDb → Option (Ans o) × DelegateDb
  | .acquire, s =>
      match E.outcome s.asked with
      | .throws => (none, { s with asked := s.asked + 1 })
      | .fails => (some false, { s with asked := s.asked + 1 })
      | .succeeds => (some true, { s with asked := s.asked + 1 })
  | .examQuery q idText params, s => E.ask (examStatement q idText params) s
  | .otherQuery q params, s => E.ask (E.otherStatement q params) s
  -- the transaction has no other operations
  | .getById _, s | .update _ _, s | .exportSubmissions _, s => (some none, s)
  | .listAll, s => (some [], s)
  | .remove _, s | .claimToken _, s | .claimTokenIfAbsent _ _, s | .upload _ _ _, s =>
      (some false, s)
  | .unclaimToken _, s => (some (), s)

end DelegateEnv

/-! ### The handler -/

/-- The owner that a request asks for. -/
def requestedOwner (req : Http.Request) : Option Int32 :=
  (stoi (jsonRawValue req.body (str "new_owner_id"))).filter (0 < ·)

/-- The supervisors that a request asks for, if it sends any. -/
def requestedPengawas (req : Http.Request) : Option (List Int32) :=
  let raw := jsonRawValue req.body (str "pengawas_ids")
  if raw = [] then none else parseIntArray raw

/-- `delegate_exam` on the tables, with its transaction caught. -/
def delegateOn (E : DelegateEnv) (env : HandlerEnv) (req : Http.Request) (tables : Tables) :
    Http.Response × Tables :=
  let idStr := getExamId req
  if idStr = [] then (Http.plainError 400 (str "exam id required"), tables)
  else match stoi idStr with
  | none => (Http.plainError 400 (str "invalid exam id"), tables)
  | some id =>
      if (tables.exams.find? fun e => e.id = id).isNone then (notFound, tables)
      else if jsonRawValue req.body (str "pengawas_ids") ≠ [] ∧ requestedPengawas req = none then
        (Http.failure 400 (str "pengawas_ids must be an array of numbers"), tables)
      else
        let (result, s) := (delegateTransaction id (sessionAdminIdFrom req) (requestedOwner req)
          (requestedPengawas req)).attempt E.perform ⟨⟨tables, none⟩, 0⟩
        let committed := s.session.db
        let saved := okReply idStr [] (str "Delegasi ujian berhasil disimpan")
        let stored :=
          match requestedOwner req with
          | none => committed
          | some owner =>
              if E.outcome s.asked = .succeeds then
                DelegateEnv.setOwner id (some owner) committed
              else committed
        match result.getD .failed with
        | .guruInvalid => (Http.failure 400
            (str "User tujuan harus Guru aktif di instansi yang sama"), committed)
        | .pengawasInvalid invalid => (Http.failure 400
            (str "Pengawas tidak valid: id " ++ intText invalid.toInt ++
              str " harus Pengawas aktif di instansi yang sama"), committed)
        | .failed =>
            if env.databaseConfigured then (databaseUnavailable, committed) else (saved, stored)
        | .ok => (saved, stored)

/-! ### Statements in a transaction -/

namespace DelegateEnv

variable {E : DelegateEnv} {base t : Tables} {s : DelegateDb} {k : Nat} {id : Int32}

/-- In a transaction with these tables, `k` statements in. -/
def live (base t : Tables) (k : Nat) : DelegateDb := ⟨⟨base, some ⟨t, [], false⟩⟩, k⟩

/-- In a transaction that can no longer commit. -/
structure Doomed (base : Tables) (s : DelegateDb) : Prop where
  db : s.session.db = base
  tx : ∃ tx, s.session.tx = some tx ∧ tx.aborted = true

/-- A statement that has thrown, or has failed and left the transaction aborted. -/
def Refused (base : Tables) (r : Option (Option Rows) × DelegateDb) : Prop :=
  r.2.session.db = base ∧ (r.1 = none ∨ r.1 = some none ∧ Doomed base r.2)

/-- A statement gives its rows and its tables if `good` holds, and is refused otherwise. -/
def Step (E : DelegateEnv) (base t : Tables) (k : Nat)
    (f : Bool → Session Tables → Option Rows × Session Tables) (good : Prop) (rows : Rows)
    (t' : Tables) : Prop :=
  (good ∧ E.ask f (live base t k) = (some (some rows), live base t' (k + 1))) ∨
    (¬ good ∧ Refused base (E.ask f (live base t k)))

section

variable {f : Bool → Session Tables → Option Rows × Session Tables}

theorem ask_throws (h : E.outcome s.asked = .throws) :
    E.ask f s = (none, ⟨s.session.rollback, s.asked + 1⟩) := by
  rw [ask, h]

theorem ask_fails (h : E.outcome s.asked = .fails) :
    E.ask f s = (some (f false s.session).1, ⟨(f false s.session).2, s.asked + 1⟩) := by
  rw [ask, h]
  rfl

theorem ask_succeeds (h : E.outcome s.asked = .succeeds) :
    E.ask f s = (some (f true s.session).1, ⟨(f true s.session).2, s.asked + 1⟩) := by
  rw [ask, h]
  rfl

/-- A statement that may be refused for the tables it finds. -/
theorem step_exec (statement : Tables → Rows × Tables) (c : Tables → Bool)
    (hf : ∀ ok s, f ok s = s.exec (ok && c (current s)) statement) :
    Step E base t k f (E.outcome k = .succeeds ∧ c t = true) (statement t).1 (statement t).2 := by
  have hdoomed : Doomed base ⟨⟨base, some ⟨t, [], true⟩⟩, k + 1⟩ := ⟨rfl, _, rfl, rfl⟩
  unfold Step
  cases hout : E.outcome k with
  | throws =>
      rw [ask_throws hout]
      exact .inr ⟨fun h => (nomatch h.1), rfl, .inl rfl⟩
  | fails =>
      rw [ask_fails hout, hf, Bool.false_and]
      exact .inr ⟨fun h => (nomatch h.1), rfl, .inr ⟨rfl, hdoomed⟩⟩
  | succeeds =>
      have hcurrent : current (live base t k).session = t := rfl
      rw [ask_succeeds hout, hf, Bool.true_and, hcurrent]
      cases c t with
      | true => exact .inl ⟨⟨rfl, rfl⟩, rfl⟩
      | false => exact .inr ⟨fun h => (nomatch h.2), rfl, .inr ⟨rfl, hdoomed⟩⟩

theorem step_select (rows : Rows) :
    Step E base t k (select rows) (E.outcome k = .succeeds) rows t := by
  have hstep : Step E base t k (select rows) (E.outcome k = .succeeds ∧ true = true) rows t :=
    step_exec (fun t => (rows, t)) (fun _ => true) fun ok s => by rw [Bool.and_true]; rfl
  simpa only [and_true] using hstep

theorem step_write (g : Tables → Tables) :
    Step E base t k (write g) (E.outcome k = .succeeds) [] (g t) := by
  have hstep : Step E base t k (write g) (E.outcome k = .succeeds ∧ true = true) [] (g t) :=
    step_exec (fun t => ([], g t)) (fun _ => true) fun ok s => by rw [Bool.and_true]; rfl
  simpa only [and_true] using hstep

theorem step_insertRow (row : Int32 × Int32) :
    Step E base t k (insertRow row) (E.outcome k = .succeeds ∧ row ∉ t.pengawas) []
      (addPengawas row t) := by
  have hstep : Step E base t k (insertRow row)
      (E.outcome k = .succeeds ∧ decide (row ∉ t.pengawas) = true) [] (addPengawas row t) :=
    step_exec (fun t => ([], addPengawas row t)) (fun t => row ∉ t.pengawas) fun ok s => rfl
  simpa only [decide_eq_true_eq] using hstep

/-- In a doomed transaction every statement is refused. -/
theorem refused_of_doomed (hs : Doomed base s) (statement : Tables → Rows × Tables)
    (c : Session Tables → Bool) (hf : ∀ ok s, f ok s = s.exec (ok && c s) statement) :
    Refused base (E.ask f s) := by
  obtain ⟨hdb, tx, htx, haborted⟩ := hs
  have hexec : ∀ ok, f ok s.session = (none, { s.session with tx := some tx.abort }) := by
    intro ok
    rw [hf, Session.exec, htx]
    simp [Transaction.exec, haborted]
  have hdoomed : Doomed base ⟨{ s.session with tx := some tx.abort }, s.asked + 1⟩ :=
    ⟨hdb, _, rfl, rfl⟩
  cases hout : E.outcome s.asked with
  | throws =>
      rw [ask_throws hout]
      exact ⟨hdb, .inl rfl⟩
  | fails =>
      rw [ask_fails hout, hexec]
      exact ⟨hdb, .inr ⟨rfl, hdoomed⟩⟩
  | succeeds =>
      rw [ask_succeeds hout, hexec]
      exact ⟨hdb, .inr ⟨rfl, hdoomed⟩⟩

theorem refused_select (hs : Doomed base s) (rows : Rows) : Refused base (E.ask (select rows) s) :=
  refused_of_doomed hs (fun t => (rows, t)) (fun _ => true) fun ok s => by rw [Bool.and_true]; rfl

theorem refused_write (hs : Doomed base s) (g : Tables → Tables) :
    Refused base (E.ask (write g) s) :=
  refused_of_doomed hs (fun t => ([], g t)) (fun _ => true) fun ok s => by rw [Bool.and_true]; rfl

end

theorem readId_intText (id : Int32) : readId (intText id.toInt) = id := by
  rw [readId, stoi_intText, Option.getD_some]

theorem rowOf_intText (id : Int32) : E.rowOf (intText id.toInt) = E.userOf id := by
  unfold rowOf userOf
  congr 1
  funext u
  refine decide_eq_decide.mpr ⟨fun h => ?_, fun h => by rw [h]⟩
  exact Option.some.inj (by rw [← stoi_intText, h, stoi_intText])

/-! ### The users -/

variable {role : Bytes} {uid : Int32} {ids : List Int32}

/-- The institution that the query for the caller gives if it succeeds. -/
def institution (E : DelegateEnv) (uid : Int32) : Bytes :=
  ((E.userOf uid).map Http.AdminUser.instansi).getD []

/-- The test of a user, with what stands for the caller's institution. -/
def judged (E : DelegateEnv) (role inst : Bytes) (id : Int32) : Bool :=
  (E.userOf id).any fun u =>
    u.instansi = inst && u.status = str "active" && (findSub role u.role).isSome

/-- A query that has been answered, in a run of a program. -/
theorem attempt_other {α : Type} {q : OtherStatement} {params : List Bytes} {r : Option Rows}
    {s' : DelegateDb} {next : Option Rows → Prog Op Ans α}
    (h : E.ask (E.otherStatement q params) s = (some r, s')) :
    (Pg.other q params >>= next).attempt E.perform s = (next r).attempt E.perform s' :=
  Prog.attempt_call_some h

theorem attempt_other_none {α : Type} {q : OtherStatement} {params : List Bytes}
    {s' : DelegateDb} {next : Option Rows → Prog Op Ans α}
    (h : E.ask (E.otherStatement q params) s = (none, s')) :
    (Pg.other q params >>= next).attempt E.perform s = (none, s') :=
  Prog.attempt_call_none h

theorem attempt_exam {α : Type} {q : ExamStatement} {idText : Bytes} {params : List Bytes}
    {r : Option Rows} {s' : DelegateDb} {next : Option Rows → Prog Op Ans α}
    (h : E.ask (examStatement q idText params) s = (some r, s')) :
    (Pg.exam q idText params >>= next).attempt E.perform s = (next r).attempt E.perform s' :=
  Prog.attempt_call_some h

theorem attempt_exam_none {α : Type} {q : ExamStatement} {idText : Bytes} {params : List Bytes}
    {s' : DelegateDb} {next : Option Rows → Prog Op Ans α}
    (h : E.ask (examStatement q idText params) s = (none, s')) :
    (Pg.exam q idText params >>= next).attempt E.perform s = (none, s') :=
  Prog.attempt_call_none h

/-- What the test of a user makes of the row that was read and of the caller's. -/
def verdict (role : Bytes) (row : List Bytes) (caller : Option Rows) : Bool :=
  row.head? = some (((caller.bind List.head?).bind List.head?).getD []) &&
    row[2]? = some (str "active") && (row[1]?.any fun roles => (findSub role roles).isSome)

theorem verdict_userRow (u : Http.AdminUser) (caller : Option Rows) :
    verdict role [u.instansi, u.role, u.status] caller =
      (u.instansi = ((caller.bind List.head?).bind List.head?).getD [] &&
        u.status = str "active" && (findSub role u.role).isSome) := by
  simp [verdict]

theorem roleOf_rows (id : Int32) :
    E.otherStatement .roleOf [intText id.toInt] =
      select ((E.userOf id).toList.map fun u => [u.instansi, u.role, u.status]) := by
  rw [otherStatement, param, List.head?_cons, Option.getD_some, rowOf_intText]

theorem instansi_rows (uid : Int32) :
    E.otherStatement .instansi [intText uid.toInt] =
      select ((E.userOf uid).toList.map fun u => [u.instansi]) := by
  rw [otherStatement, param, List.head?_cons, Option.getD_some, rowOf_intText]

/-- The caller's institution in an answer, with the empty text for a query that finds no row. -/
theorem institution_rows (E : DelegateEnv) (uid : Int32) :
    (((some ((E.userOf uid).toList.map fun u => [u.instansi])).bind List.head?).bind
      List.head?).getD [] = E.institution uid := by
  unfold institution
  cases E.userOf uid <;> rfl

/-- A check that spoils the transaction, or ends without a pass. -/
def Spoiled {α : Type} (base : Tables) (pass : α) (r : Option α × DelegateDb) : Prop :=
  r.2.session.db = base ∧ (r.1 = some pass → Doomed base r.2)

theorem spoiled_of_ne {α : Type} {pass : α} {r : Option α × DelegateDb}
    (hdb : r.2.session.db = base) (hne : r.1 ≠ some pass) : Spoiled base pass r :=
  ⟨hdb, fun h => absurd h hne⟩

/-- A user that is valid in a transaction. -/
def ValidIn (E : DelegateEnv) (role : Bytes) (id uid : Int32) (k : Nat) : Prop :=
  E.outcome k = .succeeds ∧ E.outcome (k + 1) = .succeeds ∧
    E.judged role (E.institution uid) id = true

theorem validUser_live (E : DelegateEnv) (base t : Tables) (role : Bytes) (id uid : Int32)
    (k : Nat) :
    (ValidIn E role id uid k ∧
        (validUser role id uid).attempt E.perform (live base t k) =
          (some true, live base t (k + 2))) ∨
      (¬ ValidIn E role id uid k ∧
        Spoiled base true ((validUser role id uid).attempt E.perform (live base t k))) := by
  have hfirst : Step E base t k (E.otherStatement .roleOf [intText id.toInt]) _ _ _ :=
    roleOf_rows id ▸ step_select _
  unfold validUser
  rcases hfirst with ⟨hk, hask⟩ | ⟨hk, hdb, hnone | ⟨hfailed, hdoomed⟩⟩
  · rw [attempt_other hask]
    cases huser : E.userOf id with
    | none =>
        refine .inr ⟨fun h => ?_, spoiled_of_ne rfl (by simp)⟩
        have hjudged := h.2.2
        simp [judged, huser] at hjudged
    | some u =>
        let rest : Prog Op Ans Bool := Pg.other .instansi [intText uid.toInt] >>= fun caller =>
          Prog.done (verdict role [u.instansi, u.role, u.status] caller)
        change (_ ∧ rest.attempt E.perform (live base t (k + 1)) = _) ∨
          (_ ∧ Spoiled base true (rest.attempt E.perform (live base t (k + 1))))
        have hsecond : Step E base t (k + 1) (E.otherStatement .instansi [intText uid.toInt]) _ _ _ :=
          instansi_rows uid ▸ step_select _
        have hverdict : E.judged role (E.institution uid) id =
            verdict role [u.instansi, u.role, u.status]
              (some ((E.userOf uid).toList.map fun u => [u.instansi])) := by
          rw [verdict_userRow, institution_rows, judged, huser, Option.any_some]
        rcases hsecond with ⟨hk', hask'⟩ | ⟨hk', hdb, hnone | ⟨hfailed, hdoomed⟩⟩
        · rw [attempt_other hask', Prog.attempt_done, ← hverdict]
          cases hjudged : E.judged role (E.institution uid) id with
          | true => exact .inl ⟨⟨hk, hk', hjudged⟩, rfl⟩
          | false =>
              refine .inr ⟨fun h => ?_, spoiled_of_ne rfl (by simp)⟩
              rw [h.2.2] at hjudged
              cases hjudged
        · refine .inr ⟨fun h => hk' h.2.1, ?_⟩
          rw [attempt_other_none (Prod.ext hnone rfl)]
          exact spoiled_of_ne hdb (by simp)
        · refine .inr ⟨fun h => hk' h.2.1, ?_⟩
          rw [attempt_other (Prod.ext hfailed rfl)]
          exact ⟨hdb, fun _ => hdoomed⟩
  · refine .inr ⟨fun h => hk h.1, ?_⟩
    rw [attempt_other_none (Prod.ext hnone rfl)]
    exact spoiled_of_ne hdb (by simp)
  · refine .inr ⟨fun h => hk h.1, ?_⟩
    rw [attempt_other (Prod.ext hfailed rfl)]
    exact spoiled_of_ne hdb (by simp)

/-- In a doomed transaction no user is valid. -/
theorem validUser_doomed (E : DelegateEnv) (role : Bytes) (hs : Doomed base s) (id uid : Int32) :
    ((validUser role id uid).attempt E.perform s).2.session.db = base ∧
      ((validUser role id uid).attempt E.perform s).1 ≠ some true := by
  have hfirst : Refused base (E.ask (E.otherStatement .roleOf [intText id.toInt]) s) :=
    roleOf_rows id ▸ refused_select hs _
  unfold validUser
  rcases hfirst with ⟨hdb, hnone | ⟨hfailed, hdoomed⟩⟩
  · rw [attempt_other_none (Prod.ext hnone rfl)]
    exact ⟨hdb, by simp⟩
  · rw [attempt_other (Prod.ext hfailed rfl)]
    exact ⟨hdb, by simp⟩

/-! ### The supervisors -/

/-- All of the users are valid, each with two queries. -/
def AllValid (E : DelegateEnv) (uid : Int32) : List Int32 → Nat → Prop
  | [], _ => True
  | id :: rest, k => ValidIn E (str "pengawas") id uid k ∧ AllValid E uid rest (k + 2)

theorem firstInvalid_doomed (hs : Doomed base s) (ids : List Int32) :
    Spoiled base none ((firstInvalid uid ids).attempt E.perform s) := by
  cases ids with
  | nil => exact ⟨hs.db, fun _ => hs⟩
  | cons id rest =>
      obtain ⟨hdb, hne⟩ := validUser_doomed E (str "pengawas") hs id uid
      rw [firstInvalid]
      rcases hrun : (validUser (str "pengawas") id uid).attempt E.perform s with ⟨_ | b, s'⟩
      · rw [Prog.attempt_bind_none hrun]
        rw [hrun] at hdb
        exact spoiled_of_ne hdb (by simp)
      · rw [Prog.attempt_bind_some hrun]
        rw [hrun] at hdb hne
        cases b with
        | true => exact absurd rfl hne
        | false => exact spoiled_of_ne hdb (by simp)

theorem firstInvalid_live (E : DelegateEnv) (base t : Tables) (uid : Int32) (ids : List Int32)
    (k : Nat) :
    (AllValid E uid ids k ∧
        (firstInvalid uid ids).attempt E.perform (live base t k) =
          (some none, live base t (k + 2 * ids.length))) ∨
      (¬ AllValid E uid ids k ∧
        Spoiled base none ((firstInvalid uid ids).attempt E.perform (live base t k))) := by
  induction ids generalizing k with
  | nil => exact .inl ⟨trivial, rfl⟩
  | cons id rest ih =>
      rw [firstInvalid]
      rcases validUser_live E base t (str "pengawas") id uid k with ⟨hvalid, hrun⟩ | ⟨hvalid, hdb, hdoomed⟩
      · rw [Prog.attempt_bind_some hrun, if_pos rfl, List.length_cons,
          show k + 2 * (rest.length + 1) = k + 2 + 2 * rest.length by omega]
        rcases ih (k + 2) with ⟨hrest, hrun⟩ | ⟨hrest, hspoiled⟩
        · exact .inl ⟨⟨hvalid, hrest⟩, hrun⟩
        · exact .inr ⟨fun h => hrest h.2, hspoiled⟩
      · refine .inr ⟨fun h => hvalid h.1, ?_⟩
        rcases hrun : (validUser (str "pengawas") id uid).attempt E.perform (live base t k)
          with ⟨_ | b, s'⟩
        · rw [Prog.attempt_bind_none hrun]
          rw [hrun] at hdb
          exact spoiled_of_ne hdb (by simp)
        · rw [Prog.attempt_bind_some hrun]
          rw [hrun] at hdb hdoomed
          cases b with
          | true => exact firstInvalid_doomed (hdoomed rfl) rest
          | false => exact spoiled_of_ne hdb (by simp)

/-- All of the rows are added, each by one statement. -/
def AllAdded (E : DelegateEnv) (id : Int32) : List Int32 → Nat → Tables → Prop
  | [], _, _ => True
  | user :: rest, k, t =>
      (E.outcome k = .succeeds ∧ (id, user) ∉ t.pengawas) ∧
        AllAdded E id rest (k + 1) (addPengawas (id, user) t)

def addAll (id : Int32) (ids : List Int32) (t : Tables) : Tables :=
  ids.foldl (fun t user => addPengawas (id, user) t) t

theorem insertPengawas_live (E : DelegateEnv) (base : Tables) (id : Int32) (ids : List Int32)
    (t : Tables) (k : Nat) :
    (AllAdded E id ids k t ∧
        (insertPengawas id ids).attempt E.perform (live base t k) =
          (some true, live base (addAll id ids t) (k + ids.length))) ∨
      (¬ AllAdded E id ids k t ∧
        ((insertPengawas id ids).attempt E.perform (live base t k)).2.session.db = base ∧
        ((insertPengawas id ids).attempt E.perform (live base t k)).1 ≠ some true) := by
  induction ids generalizing t k with
  | nil => exact .inl ⟨trivial, rfl⟩
  | cons user rest ih =>
      have hinsert : Step E base t k
          (examStatement .insertPengawas (intText id.toInt) [intText user.toInt])
          (E.outcome k = .succeeds ∧ (id, user) ∉ t.pengawas) [] (addPengawas (id, user) t) := by
        rw [examStatement, param, List.head?_cons, Option.getD_some, readId_intText, readId_intText]
        exact step_insertRow (id, user)
      rw [insertPengawas]
      rcases hinsert with ⟨hgood, hask⟩ | ⟨hgood, hdb, hnone | ⟨hfailed, -⟩⟩
      · rw [attempt_exam hask, List.length_cons,
          show k + (rest.length + 1) = k + 1 + rest.length by omega]
        rcases ih (addPengawas (id, user) t) (k + 1) with ⟨hrest, hrun⟩ | ⟨hrest, hspoiled⟩
        · exact .inl ⟨⟨hgood, hrest⟩, hrun⟩
        · exact .inr ⟨fun h => hrest h.2, hspoiled⟩
      · refine .inr ⟨fun h => hgood h.1, ?_⟩
        rw [attempt_exam_none (Prod.ext hnone rfl)]
        exact ⟨hdb, by simp⟩
      · refine .inr ⟨fun h => hgood h.1, ?_⟩
        rw [attempt_exam (Prod.ext hfailed rfl)]
        exact ⟨hdb, by simp⟩

/-! ### The transaction -/

/-- The transaction has not gone through, and nothing of it is left. -/
def Undone (base : Tables) (r : Option Delegated × DelegateDb) : Prop :=
  r.2.session.db = base ∧ r.1 ≠ some .ok

theorem undone_rollback {outcome : Delegated} (hs : s.session.db = base) (hne : outcome ≠ .ok) :
    Undone base ((rollback outcome).attempt E.perform s) := by
  unfold rollback
  cases hout : E.outcome s.asked with
  | throws =>
      rw [attempt_other_none (ask_throws hout)]
      exact ⟨hs, by simp⟩
  | fails =>
      rw [attempt_other (ask_fails hout)]
      exact ⟨hs, by simpa using hne⟩
  | succeeds =>
      rw [attempt_other (ask_succeeds hout)]
      exact ⟨hs, by simpa using hne⟩

/-- `COMMIT`, and what its answer means. -/
def finish : Prog Op Ans Delegated := do
  return if (← Pg.other .commit []).isNone then .failed else .ok

theorem finish_live (E : DelegateEnv) (base t : Tables) (k : Nat) :
    (E.outcome k = .succeeds ∧
        finish.attempt E.perform (live base t k) = (some .ok, ⟨⟨t, none⟩, k + 1⟩)) ∨
      (E.outcome k ≠ .succeeds ∧ Undone base (finish.attempt E.perform (live base t k))) := by
  unfold finish
  cases hout : E.outcome k with
  | throws =>
      rw [attempt_other_none (ask_throws hout)]
      exact .inr ⟨by decide, rfl, by simp⟩
  | fails =>
      rw [attempt_other (ask_fails hout)]
      exact .inr ⟨by decide, rfl, by simp [otherStatement, Session.commit, Transaction.commit, live]⟩
  | succeeds =>
      rw [attempt_other (ask_succeeds hout)]
      exact .inl ⟨rfl, rfl⟩

/-- What the supervisors of a request ask of the transaction, from its `k`th statement on. -/
def PengawasPass (E : DelegateEnv) (id uid : Int32) (t : Tables) (k : Nat) :
    Option (List Int32) → Prop
  | none => E.outcome k = .succeeds
  | some ids =>
      AllValid E uid ids k ∧ E.outcome (k + 2 * ids.length) = .succeeds ∧
        AllAdded E id ids (k + 2 * ids.length + 1) (dropPengawas id t) ∧
        E.outcome (k + 2 * ids.length + 1 + ids.length) = .succeeds

/-- The tables with the supervisors of a request. -/
def withPengawas (id : Int32) (t : Tables) : Option (List Int32) → Tables
  | none => t
  | some ids => addAll id ids (dropPengawas id t)

theorem delegatePengawas_live (E : DelegateEnv) (base : Tables) (id uid : Int32)
    (pengawas : Option (List Int32)) (t : Tables) (k : Nat) :
    (PengawasPass E id uid t k pengawas ∧
        ∃ m, (delegatePengawas id uid pengawas).attempt E.perform (live base t k) =
          (some .ok, ⟨⟨withPengawas id t pengawas, none⟩, m⟩)) ∨
      (¬ PengawasPass E id uid t k pengawas ∧
        Undone base ((delegatePengawas id uid pengawas).attempt E.perform (live base t k))) := by
  cases pengawas with
  | none =>
      rcases finish_live E base t k with ⟨hk, hrun⟩ | ⟨hk, hundone⟩
      · exact .inl ⟨hk, _, hrun⟩
      · exact .inr ⟨hk, hundone⟩
  | some ids =>
      rw [delegatePengawas]
      rcases firstInvalid_live E base t uid ids k with ⟨hvalid, hrun⟩ | ⟨hvalid, hdb, hdoomed⟩
      · rw [Prog.attempt_bind_some hrun]
        have hdelete : Step E base t (k + 2 * ids.length)
            (examStatement .deletePengawas (intText id.toInt) [])
            (E.outcome (k + 2 * ids.length) = .succeeds) [] (dropPengawas id t) := by
          rw [examStatement, readId_intText]
          exact step_write (dropPengawas id)
        rcases hdelete with ⟨hk, hask⟩ | ⟨hk, hdb, hnone | ⟨hfailed, -⟩⟩
        · rw [attempt_exam hask]
          rw [Option.isNone_some, if_neg (by decide)]
          rcases insertPengawas_live E base id ids (dropPengawas id t)
              (k + 2 * ids.length + 1) with ⟨hadded, hrun⟩ | ⟨hadded, hdb, hne⟩
          · rw [Prog.attempt_bind_some hrun, Bool.not_true, if_neg (by decide)]
            rcases finish_live E base (addAll id ids (dropPengawas id t))
                (k + 2 * ids.length + 1 + ids.length) with ⟨hlast, hrun⟩ | ⟨hlast, hundone⟩
            · exact .inl ⟨⟨hvalid, hk, hadded, hlast⟩, _, hrun⟩
            · exact .inr ⟨fun h => hlast h.2.2.2, hundone⟩
          · refine .inr ⟨fun h => hadded h.2.2.1, ?_⟩
            rcases hrun : (insertPengawas id ids).attempt E.perform
              (live base (dropPengawas id t) (k + 2 * ids.length + 1)) with ⟨_ | b, s'⟩
            · rw [Prog.attempt_bind_none hrun]
              rw [hrun] at hdb
              exact ⟨hdb, by simp⟩
            · rw [Prog.attempt_bind_some hrun]
              rw [hrun] at hdb hne
              cases b with
              | true => exact absurd rfl hne
              | false => exact undone_rollback hdb (by simp)
        · refine .inr ⟨fun h => hk h.2.1, ?_⟩
          rw [attempt_exam_none (Prod.ext hnone rfl)]
          exact ⟨hdb, by simp⟩
        · refine .inr ⟨fun h => hk h.2.1, ?_⟩
          rw [attempt_exam (Prod.ext hfailed rfl)]
          exact undone_rollback hdb (by simp)
      · refine .inr ⟨fun h => hvalid h.1, ?_⟩
        rcases hrun : (firstInvalid uid ids).attempt E.perform (live base t k) with ⟨_ | found, s'⟩
        · rw [Prog.attempt_bind_none hrun]
          rw [hrun] at hdb
          exact ⟨hdb, by simp⟩
        · rw [Prog.attempt_bind_some hrun]
          rw [hrun] at hdb hdoomed
          cases found with
          | some invalid => exact undone_rollback hdb (by simp)
          | none =>
              have hdelete : Refused base
                  (E.ask (examStatement .deletePengawas (intText id.toInt) []) s') :=
                refused_write (hdoomed rfl) _
              rcases hdelete with ⟨hdb, hnone | ⟨hfailed, -⟩⟩
              · dsimp only
                rw [attempt_exam_none (Prod.ext hnone rfl)]
                exact ⟨hdb, by simp⟩
              · dsimp only
                rw [attempt_exam (Prod.ext hfailed rfl)]
                exact undone_rollback hdb (by simp)

/-- Before the transaction, on these tables, `k` statements in. -/
def idle (base : Tables) (k : Nat) : DelegateDb := ⟨⟨base, none⟩, k⟩

/-- What stands for the caller's institution when the query for it is the `k`th statement. -/
def institutionAt (E : DelegateEnv) (uid : Int32) (k : Nat) : Bytes :=
  if E.outcome k = .succeeds then E.institution uid else []

/-- A user that passes before the transaction. -/
def PassesBefore (E : DelegateEnv) (role : Bytes) (id uid : Int32) (k : Nat) : Prop :=
  E.outcome k = .succeeds ∧ E.outcome (k + 1) ≠ .throws ∧
    E.judged role (E.institutionAt uid (k + 1)) id = true

theorem select_idle (base : Tables) (k : Nat) (rows : Rows) :
    E.ask (select rows) (idle base k) =
      (match E.outcome k with
        | .succeeds => some (some rows)
        | .fails => some none
        | .throws => none, idle base (k + 1)) := by
  cases hout : E.outcome k with
  | throws => exact ask_throws hout
  | fails => exact ask_fails hout
  | succeeds => exact ask_succeeds hout

theorem validUser_idle (E : DelegateEnv) (base : Tables) (role : Bytes) (id uid : Int32) (k : Nat) :
    (PassesBefore E role id uid k ∧
        (validUser role id uid).attempt E.perform (idle base k) = (some true, idle base (k + 2))) ∨
      (¬ PassesBefore E role id uid k ∧
        ((validUser role id uid).attempt E.perform (idle base k)).2.session.db = base ∧
        ((validUser role id uid).attempt E.perform (idle base k)).1 ≠ some true) := by
  have hfirst := select_idle (E := E) base k
    ((E.userOf id).toList.map fun u => [u.instansi, u.role, u.status])
  rw [← roleOf_rows] at hfirst
  unfold validUser
  cases hk : E.outcome k with
  | throws =>
      rw [hk] at hfirst
      rw [attempt_other_none hfirst]
      exact .inr ⟨fun h => (nomatch hk.symm.trans h.1), rfl, by simp⟩
  | fails =>
      rw [hk] at hfirst
      rw [attempt_other hfirst]
      exact .inr ⟨fun h => (nomatch hk.symm.trans h.1), rfl, by simp⟩
  | succeeds =>
      rw [hk] at hfirst
      rw [attempt_other hfirst]
      cases huser : E.userOf id with
      | none =>
          refine .inr ⟨fun h => ?_, rfl, by simp⟩
          have hjudged := h.2.2
          simp [judged, huser] at hjudged
      | some u =>
          let rest : Prog Op Ans Bool := Pg.other .instansi [intText uid.toInt] >>= fun caller =>
            Prog.done (verdict role [u.instansi, u.role, u.status] caller)
          change (_ ∧ rest.attempt E.perform (idle base (k + 1)) = _) ∨
            (_ ∧ (rest.attempt E.perform (idle base (k + 1))).2.session.db = base ∧
              (rest.attempt E.perform (idle base (k + 1))).1 ≠ some true)
          have hsecond := select_idle (E := E) base (k + 1)
            ((E.userOf uid).toList.map fun u => [u.instansi])
          rw [← instansi_rows] at hsecond
          have hfinal : ∀ caller, E.outcome (k + 1) ≠ .throws →
              ((caller.bind List.head?).bind List.head?).getD [] = E.institutionAt uid (k + 1) →
              rest.attempt E.perform (idle base (k + 1)) =
                (some (verdict role [u.instansi, u.role, u.status] caller), idle base (k + 2)) →
              (PassesBefore E role id uid k ∧ rest.attempt E.perform (idle base (k + 1)) =
                (some true, idle base (k + 2))) ∨
              (¬ PassesBefore E role id uid k ∧
                (rest.attempt E.perform (idle base (k + 1))).2.session.db = base ∧
                (rest.attempt E.perform (idle base (k + 1))).1 ≠ some true) := by
            intro caller hthrows hinst hrun
            have hverdict : verdict role [u.instansi, u.role, u.status] caller =
                E.judged role (E.institutionAt uid (k + 1)) id := by
              rw [verdict_userRow, hinst, judged, huser, Option.any_some]
            rw [hrun, hverdict]
            cases hjudged : E.judged role (E.institutionAt uid (k + 1)) id with
            | true => exact .inl ⟨⟨hk, hthrows, hjudged⟩, rfl⟩
            | false =>
                refine .inr ⟨fun h => ?_, rfl, by simp⟩
                rw [h.2.2] at hjudged
                cases hjudged
          cases hk' : E.outcome (k + 1) with
          | throws =>
              rw [hk'] at hsecond
              rw [attempt_other_none hsecond]
              exact .inr ⟨fun h => h.2.1 hk', rfl, by simp⟩
          | fails =>
              rw [hk'] at hsecond
              refine hfinal none (by rw [hk']; decide) ?_ (attempt_other hsecond)
              rw [institutionAt, hk', if_neg (by decide)]
              rfl
          | succeeds =>
              rw [hk'] at hsecond
              refine hfinal _ (by rw [hk']; decide) ?_ (attempt_other hsecond)
              rw [institution_rows, institutionAt, hk', if_pos rfl]

/-- The statements before `BEGIN`. -/
def ownerSteps : Option Int32 → Nat
  | none => 1
  | some _ => 3

def GuruPass (E : DelegateEnv) (uid : Int32) : Option Int32 → Prop
  | none => True
  | some owner => PassesBefore E (str "guru") owner uid 1

theorem validGuru_idle (E : DelegateEnv) (base : Tables) (uid : Int32) (owner : Option Int32) :
    (GuruPass E uid owner ∧
        (validGuru uid owner).attempt E.perform (idle base 1) =
          (some true, idle base (ownerSteps owner))) ∨
      (¬ GuruPass E uid owner ∧
        ((validGuru uid owner).attempt E.perform (idle base 1)).2.session.db = base ∧
        ((validGuru uid owner).attempt E.perform (idle base 1)).1 ≠ some true) := by
  cases owner with
  | none => exact .inl ⟨trivial, rfl⟩
  | some owner => exact validUser_idle E base (str "guru") owner uid 1

theorem writeOwner_live (E : DelegateEnv) (base t : Tables) (id : Int32) (owner : Option Int32)
    (k : Nat) {α : Type} (next : Option Rows → Prog Op Ans α) :
    (E.outcome k = .succeeds ∧
        (writeOwner id owner >>= next).attempt E.perform (live base t k) =
          (next (some [])).attempt E.perform (live base (setOwner id owner t) (k + 1))) ∨
      (E.outcome k ≠ .succeeds ∧ ∃ s', s'.session.db = base ∧
        ((writeOwner id owner >>= next).attempt E.perform (live base t k) = (none, s') ∨
          (writeOwner id owner >>= next).attempt E.perform (live base t k) =
            (next none).attempt E.perform s')) := by
  obtain ⟨q, params, hwrite, hstep⟩ : ∃ q params,
      writeOwner id owner = Pg.exam q (intText id.toInt) params ∧
        Step E base t k (examStatement q (intText id.toInt) params) (E.outcome k = .succeeds) []
          (setOwner id owner t) := by
    cases owner with
    | none =>
        refine ⟨_, _, rfl, ?_⟩
        rw [examStatement, readId_intText]
        exact step_write _
    | some owner =>
        refine ⟨_, _, rfl, ?_⟩
        rw [examStatement, param, List.head?_cons, Option.getD_some, readId_intText, readId_intText]
        exact step_write _
  rw [hwrite]
  rcases hstep with ⟨hk, hask⟩ | ⟨hk, hdb, hnone | ⟨hfailed, -⟩⟩
  · exact .inl ⟨hk, attempt_exam hask⟩
  · exact .inr ⟨hk, _, hdb, .inl (attempt_exam_none (Prod.ext hnone rfl))⟩
  · exact .inr ⟨hk, _, hdb, .inr (attempt_exam (Prod.ext hfailed rfl))⟩

/-- All of the transaction goes through. -/
def Pass (E : DelegateEnv) (base : Tables) (id uid : Int32) (owner : Option Int32)
    (pengawas : Option (List Int32)) : Prop :=
  E.outcome 0 = .succeeds ∧ GuruPass E uid owner ∧ E.outcome (ownerSteps owner) = .succeeds ∧
    E.outcome (ownerSteps owner + 1) = .succeeds ∧
      PengawasPass E id uid (setOwner id owner base) (ownerSteps owner + 2) pengawas

/-- The tables with the new owner and the supervisors of a request. -/
def delegated (base : Tables) (id : Int32) (owner : Option Int32) (pengawas : Option (List Int32)) :
    Tables :=
  withPengawas id (setOwner id owner base) pengawas

theorem delegateTransaction_cases (E : DelegateEnv) (base : Tables) (id uid : Int32)
    (owner : Option Int32) (pengawas : Option (List Int32)) :
    (Pass E base id uid owner pengawas ∧
        ∃ m, (delegateTransaction id uid owner pengawas).attempt E.perform (idle base 0) =
          (some .ok, ⟨⟨delegated base id owner pengawas, none⟩, m⟩)) ∨
      (¬ Pass E base id uid owner pengawas ∧
        Undone base
          ((delegateTransaction id uid owner pengawas).attempt E.perform (idle base 0))) := by
  have hacquire : ∀ (next : Bool → Prog Op Ans Delegated),
      (Pg.acquire >>= next).attempt E.perform (idle base 0) =
        match E.outcome 0 with
        | .throws => (none, idle base 1)
        | .fails => (next false).attempt E.perform (idle base 1)
        | .succeeds => (next true).attempt E.perform (idle base 1) := by
    intro next
    cases hout : E.outcome 0 with
    | throws =>
        refine Prog.attempt_call_none ?_
        rw [perform, show (idle base 0).asked = 0 from rfl, hout]
        rfl
    | fails =>
        refine Prog.attempt_call_some ?_
        rw [perform, show (idle base 0).asked = 0 from rfl, hout]
        rfl
    | succeeds =>
        refine Prog.attempt_call_some ?_
        rw [perform, show (idle base 0).asked = 0 from rfl, hout]
        rfl
  rw [delegateTransaction, hacquire]
  cases hfirst : E.outcome 0 with
  | throws => exact .inr ⟨fun h => (nomatch hfirst.symm.trans h.1), rfl, by simp⟩
  | fails => exact .inr ⟨fun h => (nomatch hfirst.symm.trans h.1), rfl, by simp⟩
  | succeeds =>
      simp only [Bool.not_true, Bool.false_eq_true, if_false]
      rcases validGuru_idle E base uid owner with ⟨hguru, hrun⟩ | ⟨hguru, hdb, hne⟩
      · rw [Prog.attempt_bind_some hrun]
        simp only [Bool.not_true, Bool.false_eq_true, if_false]
        set k := ownerSteps owner
        cases hbegin : E.outcome k with
        | throws =>
            rw [attempt_other_none (ask_throws (s := idle base k) hbegin)]
            exact .inr ⟨fun h => (nomatch hbegin.symm.trans h.2.2.1), rfl, by simp⟩
        | fails =>
            rw [attempt_other (ask_fails (s := idle base k) hbegin)]
            exact .inr ⟨fun h => (nomatch hbegin.symm.trans h.2.2.1), rfl, by
              simp [otherStatement]⟩
        | succeeds =>
            have hbegun : E.ask (E.otherStatement .begin []) (idle base k) =
                (some (some []), live base base (k + 1)) := ask_succeeds hbegin
            rw [attempt_other hbegun]
            simp only [Option.isNone_some, Bool.false_eq_true, if_false]
            rcases writeOwner_live E base base id owner (k + 1)
              (fun r => if r.isNone then rollback .failed else delegatePengawas id uid pengawas)
              with ⟨hwrite, hrun⟩ | ⟨hwrite, s', hdb, hrun | hrun⟩
            · rw [hrun, Option.isNone_some, if_neg (by decide)]
              rcases delegatePengawas_live E base id uid pengawas (setOwner id owner base) (k + 2)
                with ⟨hpass, hrun⟩ | ⟨hpass, hundone⟩
              · exact .inl ⟨⟨hfirst, hguru, hbegin, hwrite, hpass⟩, hrun⟩
              · exact .inr ⟨fun h => hpass h.2.2.2.2, hundone⟩
            · rw [hrun]
              exact .inr ⟨fun h => hwrite h.2.2.2.1, hdb, by simp⟩
            · rw [hrun, Option.isNone_none, if_pos rfl]
              exact .inr ⟨fun h => hwrite h.2.2.2.1, undone_rollback hdb (by simp)⟩
      · refine .inr ⟨fun h => hguru h.2.1, ?_⟩
        rcases hrun : (validGuru uid owner).attempt E.perform (idle base 1) with ⟨_ | b, s'⟩
        · rw [Prog.attempt_bind_none hrun]
          rw [hrun] at hdb
          exact ⟨hdb, by simp⟩
        · rw [Prog.attempt_bind_some hrun]
          rw [hrun] at hdb hne
          cases b with
          | true => exact absurd rfl hne
          | false => exact ⟨hdb, by simp⟩

/-! ### When the transaction goes through -/

/-- The last statement of the transaction, its `COMMIT`. -/
def lastStep (owner : Option Int32) (pengawas : Option (List Int32)) : Nat :=
  ownerSteps owner + 2 + ((pengawas.map fun ids => 3 * ids.length + 1).getD 0)

/-- The users pass their checks and every statement succeeds, up to the query for the caller's
institution in the check of the owner, which may fail. -/
structure GoesThrough (E : DelegateEnv) (uid : Int32) (owner : Option Int32)
    (pengawas : Option (List Int32)) : Prop where
  acquired : E.outcome 0 = .succeeds
  guru : GuruPass E uid owner
  statements : ∀ i, ownerSteps owner ≤ i → i ≤ lastStep owner pengawas → E.outcome i = .succeeds
  pengawas : ∀ ids ∈ pengawas, ids.Nodup ∧
    ∀ user ∈ ids, E.judged (str "pengawas") (E.institution uid) user = true

theorem allValid_iff (ids : List Int32) (k : Nat) :
    AllValid E uid ids k ↔ (∀ i, k ≤ i → i < k + 2 * ids.length → E.outcome i = .succeeds) ∧
      ∀ user ∈ ids, E.judged (str "pengawas") (E.institution uid) user = true := by
  induction ids generalizing k with
  | nil => exact iff_of_true trivial ⟨fun i hk hi => absurd hi (by simpa using hk), nofun⟩
  | cons user rest ih =>
      rw [AllValid, ih, ValidIn, List.length_cons, List.forall_mem_cons]
      constructor
      · rintro ⟨⟨hk, hk', hjudged⟩, hrest, hall⟩
        refine ⟨fun i hle hlt => ?_, hjudged, hall⟩
        rcases eq_or_lt_of_le hle with rfl | hlt'
        · exact hk
        · rcases eq_or_lt_of_le (Nat.succ_le_of_lt hlt') with rfl | hlt''
          · exact hk'
          · exact hrest i (by omega) (by omega)
      · rintro ⟨hrange, hjudged, hall⟩
        exact ⟨⟨hrange k (by omega) (by omega), hrange (k + 1) (by omega) (by omega), hjudged⟩,
          fun i hle hlt => hrange i (by omega) (by omega), hall⟩

theorem allAdded_iff (id : Int32) (ids : List Int32) (t : Tables) (k : Nat) :
    AllAdded E id ids k t ↔ (∀ i, k ≤ i → i < k + ids.length → E.outcome i = .succeeds) ∧
      ids.Nodup ∧ ∀ user ∈ ids, (id, user) ∉ t.pengawas := by
  induction ids generalizing k t with
  | nil =>
      exact iff_of_true trivial
        ⟨fun i hk hi => absurd hi (by simpa using hk), List.nodup_nil, nofun⟩
  | cons user rest ih =>
      -- the second row of a user violates the primary key
      have hfresh : (∀ u ∈ rest, (id, u) ∉ (addPengawas (id, user) t).pengawas) ↔
          user ∉ rest ∧ ∀ u ∈ rest, (id, u) ∉ t.pengawas := by
        simp only [addPengawas, List.mem_append, List.mem_singleton, Prod.mk.injEq, true_and, not_or]
        exact ⟨fun h => ⟨fun hmem => (h user hmem).2 rfl, fun u hu => (h u hu).1⟩,
          fun h u hu => ⟨h.2 u hu, fun heq => h.1 (heq ▸ hu)⟩⟩
      rw [AllAdded, ih, hfresh, List.length_cons, List.nodup_cons, List.forall_mem_cons]
      constructor
      · rintro ⟨⟨hk, huser⟩, hrange, hnodup, hnotMem, hrest⟩
        refine ⟨fun i hle hlt => ?_, ⟨hnotMem, hnodup⟩, huser, hrest⟩
        rcases eq_or_lt_of_le hle with rfl | hlt'
        · exact hk
        · exact hrange i (by omega) (by omega)
      · rintro ⟨hrange, ⟨hnotMem, hnodup⟩, huser, hrest⟩
        exact ⟨⟨hrange k (by omega) (by omega), huser⟩,
          fun i hle hlt => hrange i (by omega) (by omega), hnodup, hnotMem, hrest⟩

theorem notMem_dropPengawas (id user : Int32) (t : Tables) :
    (id, user) ∉ (dropPengawas id t).pengawas := by
  simp [dropPengawas]

theorem pass_iff (base : Tables) (id uid : Int32) (owner : Option Int32)
    (pengawas : Option (List Int32)) :
    Pass E base id uid owner pengawas ↔ GoesThrough E uid owner pengawas := by
  set k := ownerSteps owner with hk
  cases pengawas with
  | none =>
      have hlast : lastStep owner none = k + 2 := rfl
      constructor
      · rintro ⟨hfirst, hguru, hbegin, hwrite, hcommit⟩
        refine ⟨hfirst, hguru, fun i hle hlt => ?_, nofun⟩
        have hi : i = k ∨ i = k + 1 ∨ i = k + 2 := by omega
        rcases hi with rfl | rfl | rfl
        exacts [hbegin, hwrite, hcommit]
      · rintro ⟨hfirst, hguru, hall, -⟩
        exact ⟨hfirst, hguru, hall k (by omega) (by omega), hall (k + 1) (by omega) (by omega),
          hall (k + 2) (by omega) (by omega)⟩
  | some ids =>
      have hlast : lastStep owner (some ids) = k + 2 + (3 * ids.length + 1) := rfl
      rw [Pass, PengawasPass, allValid_iff, allAdded_iff]
      constructor
      · rintro ⟨hfirst, hguru, hbegin, hwrite, ⟨hchecks, hvalid⟩, hdelete, ⟨hinserts, hnodup, -⟩,
          hcommit⟩
        refine ⟨hfirst, hguru, fun i hle hlt => ?_, fun ids' hids => ?_⟩
        · have hi : i = k ∨ i = k + 1 ∨ (k + 2 ≤ i ∧ i < k + 2 + 2 * ids.length) ∨
              i = k + 2 + 2 * ids.length ∨ (k + 2 + 2 * ids.length + 1 ≤ i ∧
                i < k + 2 + 2 * ids.length + 1 + ids.length) ∨
              i = k + 2 + 2 * ids.length + 1 + ids.length := by omega
          rcases hi with rfl | rfl | ⟨hle, hlt⟩ | rfl | ⟨hle, hlt⟩ | rfl
          exacts [hbegin, hwrite, hchecks i hle hlt, hdelete, hinserts i hle hlt, hcommit]
        · obtain rfl := Option.some.inj hids
          exact ⟨hnodup, hvalid⟩
      · rintro ⟨hfirst, hguru, hall, hpengawas⟩
        obtain ⟨hnodup, hvalid⟩ := hpengawas ids rfl
        exact ⟨hfirst, hguru, hall k (by omega) (by omega), hall (k + 1) (by omega) (by omega),
          ⟨fun i hle hlt => hall i (by omega) (by omega), hvalid⟩, hall _ (by omega) (by omega),
          ⟨fun i hle hlt => hall i (by omega) (by omega), hnodup,
            fun user _ => notMem_dropPengawas id user _⟩, hall _ (by omega) (by omega)⟩

/-! ### The tables afterwards -/

theorem addAll_eq (id : Int32) (ids : List Int32) (t : Tables) :
    addAll id ids t = { t with pengawas := t.pengawas ++ ids.map fun user => (id, user) } := by
  induction ids generalizing t with
  | nil => simp [addAll]
  | cons user rest ih =>
      change addAll id rest (addPengawas (id, user) t) = _
      rw [ih]
      simp [addPengawas]

theorem exams_withPengawas (id : Int32) (t : Tables) (pengawas : Option (List Int32)) :
    (withPengawas id t pengawas).exams = t.exams := by
  cases pengawas with
  | none => rfl
  | some ids =>
      rw [withPengawas, addAll_eq]
      rfl

theorem mem_withPengawas (id user : Int32) (t : Tables) (ids : List Int32) :
    (id, user) ∈ (withPengawas id t (some ids)).pengawas ↔ user ∈ ids := by
  rw [withPengawas, addAll_eq]
  simp [dropPengawas]

theorem delegatedTo_setOwner {id : Int32} {owner : Option Int32} {t : Tables} {e : Exam}
    (he : e ∈ (setOwner id owner t).exams) (hid : e.id = id) : e.delegatedTo = owner := by
  obtain ⟨old, -, rfl⟩ := List.mem_map.mp he
  by_cases hold : old.id = id
  · rw [if_pos hold]
  · rw [if_neg hold] at hid
    exact absurd hid hold

theorem exists_setOwner {id : Int32} {owner : Option Int32} {t : Tables} {e : Exam}
    (he : e ∈ t.exams) (hid : e.id = id) : ∃ e ∈ (setOwner id owner t).exams, e.id = id :=
  ⟨_, List.mem_map_of_mem he, by rw [if_pos hid]; exact hid⟩

end DelegateEnv

/-! ### All or nothing -/

section

variable (E : DelegateEnv)

/-- An active user with the role, in the institution of the caller. -/
def Fits (role : Bytes) (uid id : Int32) : Prop :=
  ∃ caller user, E.userOf uid = some caller ∧ E.userOf id = some user ∧
    user.instansi = caller.instansi ∧ user.status = str "active" ∧
      Http.hasRole user.role role = true

/-- With PostgreSQL configured, an answer other than 200 leaves the tables alone, and a 200 means that
the exam is delegated as the request says, to users that fit. -/
def AllOrNothing (env : HandlerEnv) (req : Http.Request) (tables : Tables) : Prop :=
  env.databaseConfigured = true →
    let uid := sessionAdminIdFrom req
    let after := delegateOn E env req tables
    (after.1.status ≠ 200 → after.2 = tables) ∧
      (after.1.status = 200 → ∃ id, stoi (getExamId req) = some id ∧
        (∃ e ∈ after.2.exams, e.id = id) ∧
        (∀ e ∈ after.2.exams, e.id = id → e.delegatedTo = requestedOwner req) ∧
        (∀ ids ∈ requestedPengawas req, ∀ user, (id, user) ∈ after.2.pengawas ↔ user ∈ ids) ∧
        (∀ owner ∈ requestedOwner req, Fits E (str "guru") uid owner) ∧
        ∀ ids ∈ requestedPengawas req, ∀ user ∈ ids, Fits E (str "pengawas") uid user)

/-- The request is for an exam of the table and can be read. -/
def Reaches (req : Http.Request) (tables : Tables) : Prop :=
  ∃ id, getExamId req ≠ [] ∧ stoi (getExamId req) = some id ∧ (∃ e ∈ tables.exams, e.id = id) ∧
    (jsonRawValue req.body (str "pengawas_ids") ≠ [] → requestedPengawas req ≠ none)

/-- A user passes the checks and does not fit: the caller has no row and its institution is taken for
the empty text, or the query for it fails in the check of the owner, or the role is part of another
word. -/
def Misjudged (uid : Int32) (owner : Option Int32) (pengawas : Option (List Int32)) : Prop :=
  (E.userOf uid = none ∧ (owner ≠ none ∨ ∃ ids ∈ pengawas, ids ≠ [])) ∨
    (owner ≠ none ∧ E.outcome 2 = .fails ∧ E.institution uid ≠ []) ∨
    (∃ id ∈ owner, ∃ user, E.userOf id = some user ∧ Http.hasRole user.role (str "guru") = false) ∨
    ∃ ids ∈ pengawas, ∃ id ∈ ids, ∃ user, E.userOf id = some user ∧
      Http.hasRole user.role (str "pengawas") = false

end

section

variable {E : DelegateEnv} {uid id : Int32} {role inst : Bytes} {owner : Option Int32}
  {pengawas : Option (List Int32)} {env : HandlerEnv} {req : Http.Request} {tables : Tables}

theorem of_judged (h : E.judged role inst id = true) :
    ∃ user, E.userOf id = some user ∧ user.instansi = inst ∧ user.status = str "active" := by
  unfold DelegateEnv.judged at h
  cases huser : E.userOf id with
  | none => simp [huser] at h
  | some user =>
      simp only [huser, Option.any_some, Bool.and_eq_true, decide_eq_true_eq] at h
      exact ⟨user, rfl, h.1.1, h.1.2⟩

/-- A user that has been judged fits if the caller has the institution that was taken for its own. -/
theorem fits_of_judged (h : E.judged role inst id = true) :
    Fits E role uid id ↔ (∃ caller, E.userOf uid = some caller ∧ caller.instansi = inst) ∧
      ∀ user, E.userOf id = some user → Http.hasRole user.role role = true := by
  obtain ⟨user, huser, hinst, hactive⟩ := of_judged h
  constructor
  · rintro ⟨caller, user', hcaller, huser', hsame, -, hrole⟩
    obtain rfl := Option.some.inj (huser.symm.trans huser')
    refine ⟨⟨caller, hcaller, hsame.symm.trans hinst⟩, fun u hu => ?_⟩
    obtain rfl := Option.some.inj (huser.symm.trans hu)
    exact hrole
  · rintro ⟨⟨caller, hcaller, hsame⟩, hrole⟩
    exact ⟨caller, user, hcaller, huser, hinst.trans hsame.symm, hactive, hrole user huser⟩

theorem institution_of_userOf {caller : Http.AdminUser} (h : E.userOf uid = some caller) :
    E.institution uid = caller.instansi := by
  rw [DelegateEnv.institution, h]
  rfl

theorem fits_iff (h : E.GoesThrough uid owner pengawas) :
    ((∀ id ∈ owner, Fits E (str "guru") uid id) ∧
      ∀ ids ∈ pengawas, ∀ user ∈ ids, Fits E (str "pengawas") uid user) ↔
        ¬ Misjudged E uid owner pengawas := by
  have hguru : ∀ id ∈ owner, Fits E (str "guru") uid id ↔
      (∃ caller, E.userOf uid = some caller ∧ caller.instansi = E.institutionAt uid 2) ∧
        ∀ user, E.userOf id = some user → Http.hasRole user.role (str "guru") = true := by
    rintro id hid
    have hpass := h.guru
    rw [hid] at hpass
    exact fits_of_judged hpass.2.2
  have hothers : ∀ ids ∈ pengawas, ∀ user ∈ ids, Fits E (str "pengawas") uid user ↔
      (∃ caller, E.userOf uid = some caller ∧ caller.instansi = E.institution uid) ∧
        ∀ u, E.userOf user = some u → Http.hasRole u.role (str "pengawas") = true :=
    fun ids hids user huser => fits_of_judged ((h.pengawas ids hids).2 user huser)
  constructor
  · rintro ⟨howner, hpengawas⟩ (⟨hnone, hnamed⟩ | ⟨hsome, hfails, hne⟩ | ⟨id, hid, user, huser, hrole⟩ |
      ⟨ids, hids, id, hid, user, huser, hrole⟩)
    · rcases hnamed with hsome | ⟨ids, hids, hne⟩
      · obtain ⟨id, hid⟩ := Option.ne_none_iff_exists'.mp hsome
        obtain ⟨caller, -, hcaller, -⟩ := howner id hid
        rw [hnone] at hcaller
        cases hcaller
      · obtain ⟨user, rest, rfl⟩ := List.exists_cons_of_ne_nil hne
        obtain ⟨caller, -, hcaller, -⟩ := hpengawas _ hids user List.mem_cons_self
        rw [hnone] at hcaller
        cases hcaller
    · obtain ⟨id, hid⟩ := Option.ne_none_iff_exists'.mp hsome
      obtain ⟨caller, hcaller, hinst⟩ := ((hguru id hid).mp (howner id hid)).1
      rw [DelegateEnv.institutionAt, hfails, if_neg (by decide)] at hinst
      exact hne ((institution_of_userOf hcaller).trans hinst)
    · rw [((hguru id hid).mp (howner id hid)).2 user huser] at hrole
      cases hrole
    · rw [((hothers ids hids id hid).mp (hpengawas ids hids id hid)).2 user huser] at hrole
      cases hrole
  · intro hjudged
    simp only [Misjudged, not_or, not_and, not_exists] at hjudged
    obtain ⟨hcaller, hquery, hguruRole, hpengawasRole⟩ := hjudged
    refine ⟨fun id hid => (hguru id hid).mpr ⟨?_, fun user huser => ?_⟩,
      fun ids hids user huser => (hothers ids hids user huser).mpr ⟨?_, fun u hu => ?_⟩⟩
    · have hsome : owner ≠ none := by
        rw [Option.mem_def.mp hid]
        simp
      cases hrow : E.userOf uid with
      | none => exact absurd hsome (hcaller hrow).1
      | some caller =>
          refine ⟨caller, rfl, ?_⟩
          have hpass := h.guru
          rw [Option.mem_def.mp hid] at hpass
          rw [← institution_of_userOf hrow, DelegateEnv.institutionAt]
          cases hout : E.outcome 2 with
          | throws => exact absurd hout hpass.2.1
          | fails =>
              rw [if_neg (by decide)]
              by_contra hne
              exact hquery hsome hout hne
          | succeeds => rw [if_pos rfl]
    · simpa using hguruRole id hid user huser
    · cases hrow : E.userOf uid with
      | none => exact absurd (List.ne_nil_of_mem huser) ((hcaller hrow).2 ids hids)
      | some caller => exact ⟨caller, rfl, (institution_of_userOf hrow).symm⟩
    · simpa using hpengawasRole ids hids user huser u hu

/-- The tables after a request whose transaction goes through. -/
def tablesAfter (E : DelegateEnv) (id : Int32) (owner : Option Int32)
    (pengawas : Option (List Int32)) (tables : Tables) (asked : Nat) : Tables :=
  let committed := DelegateEnv.delegated tables id owner pengawas
  match owner with
  | none => committed
  | some owner =>
      if E.outcome asked = .succeeds then DelegateEnv.setOwner id (some owner) committed
      else committed

theorem delegateOn_pass (env : HandlerEnv) (hid : getExamId req ≠ []) (hstoi : stoi (getExamId req) = some id)
    (hexam : ∃ e ∈ tables.exams, e.id = id)
    (hread : jsonRawValue req.body (str "pengawas_ids") ≠ [] → requestedPengawas req ≠ none)
    (hpass : E.GoesThrough (sessionAdminIdFrom req) (requestedOwner req) (requestedPengawas req)) :
    ∃ m, delegateOn E env req tables =
      (okReply (getExamId req) [] (str "Delegasi ujian berhasil disimpan"),
        tablesAfter E id (requestedOwner req) (requestedPengawas req) tables m) := by
  have hfound : (tables.exams.find? fun e => e.id = id).isNone = false := by
    obtain ⟨e, he, heid⟩ := hexam
    rw [Option.isNone_eq_false_iff, List.find?_isSome]
    exact ⟨e, he, by simpa using heid⟩
  have hbody : ¬ (jsonRawValue req.body (str "pengawas_ids") ≠ [] ∧ requestedPengawas req = none) :=
    fun h => hread h.1 h.2
  rcases DelegateEnv.delegateTransaction_cases E tables id (sessionAdminIdFrom req)
    (requestedOwner req) (requestedPengawas req) with ⟨-, m, hrun⟩ | ⟨hnot, -⟩
  · refine ⟨m, ?_⟩
    change Prog.attempt E.perform _ ⟨⟨tables, none⟩, 0⟩ = _ at hrun
    simp only [delegateOn, if_neg hid, hstoi, hfound, Bool.false_eq_true, if_false, if_neg hbody,
      hrun, Option.getD_some]
    rfl
  · exact absurd ((DelegateEnv.pass_iff tables id _ _ _).mpr hpass) hnot

theorem delegateOn_refused (hconfigured : env.databaseConfigured = true)
    (h : ¬ (Reaches req tables ∧
      E.GoesThrough (sessionAdminIdFrom req) (requestedOwner req) (requestedPengawas req))) :
    (delegateOn E env req tables).1.status ≠ 200 ∧ (delegateOn E env req tables).2 = tables := by
  unfold delegateOn
  dsimp only
  split
  · exact ⟨by simp [Http.plainError], rfl⟩
  next hid =>
  split
  · exact ⟨by simp [Http.plainError], rfl⟩
  next id hstoi =>
  split
  · exact ⟨by simp [notFound, Http.failure], rfl⟩
  next hfound =>
  split
  · exact ⟨by simp [Http.failure], rfl⟩
  next hbody =>
  have hreaches : Reaches req tables := by
    refine ⟨id, hid, hstoi, ?_, fun hne hnone => hbody ⟨hne, hnone⟩⟩
    have hsome : (tables.exams.find? fun e => e.id = id).isSome = true := by
      simpa [Option.isNone_iff_eq_none, Option.isSome_iff_ne_none] using hfound
    obtain ⟨e, he, heid⟩ := List.find?_isSome.mp hsome
    exact ⟨e, he, by simpa using heid⟩
  rcases DelegateEnv.delegateTransaction_cases E tables id (sessionAdminIdFrom req)
    (requestedOwner req) (requestedPengawas req) with ⟨hpass, -⟩ | ⟨-, hdb, hne⟩
  · exact absurd ⟨hreaches, (DelegateEnv.pass_iff tables id _ _ _).mp hpass⟩ h
  · change (Prog.attempt E.perform _ ⟨⟨tables, none⟩, 0⟩).2.session.db = tables at hdb
    change (Prog.attempt E.perform _ ⟨⟨tables, none⟩, 0⟩).1 ≠ some Delegated.ok at hne
    rcases hrun : (delegateTransaction id (sessionAdminIdFrom req) (requestedOwner req)
      (requestedPengawas req)).attempt E.perform ⟨⟨tables, none⟩, 0⟩ with ⟨result, s⟩
    rw [hrun] at hdb hne
    cases result with
    | none =>
        simp only [Option.getD_none]
        exact ⟨by simp [databaseUnavailable, Http.failure], hdb⟩
    | some result =>
        cases result with
        | ok => exact absurd rfl hne
        | failed =>
            simp only [Option.getD_some]
            exact ⟨by simp [databaseUnavailable, Http.failure], hdb⟩
        | guruInvalid => exact ⟨by simp [Http.failure], hdb⟩
        | pengawasInvalid invalid => exact ⟨by simp [Http.failure], hdb⟩

theorem tablesAfter_exams (E : DelegateEnv) (owner : Option Int32)
    (pengawas : Option (List Int32)) (id : Int32) (asked : Nat) (hexam : ∃ e ∈ tables.exams, e.id = id) :
    (∃ e ∈ (tablesAfter E id owner pengawas tables asked).exams, e.id = id) ∧
      ∀ e ∈ (tablesAfter E id owner pengawas tables asked).exams, e.id = id →
        e.delegatedTo = owner := by
  obtain ⟨e, he, heid⟩ := hexam
  have hfirst : (DelegateEnv.delegated tables id owner pengawas).exams =
      (DelegateEnv.setOwner id owner tables).exams := DelegateEnv.exams_withPengawas id _ pengawas
  have hcommitted : (∃ e ∈ (DelegateEnv.delegated tables id owner pengawas).exams, e.id = id) ∧
      ∀ e ∈ (DelegateEnv.delegated tables id owner pengawas).exams, e.id = id →
        e.delegatedTo = owner := by
    rw [hfirst]
    exact ⟨DelegateEnv.exists_setOwner he heid, fun _ => DelegateEnv.delegatedTo_setOwner⟩
  unfold tablesAfter
  cases owner with
  | none => exact hcommitted
  | some owner =>
      dsimp only
      split
      · obtain ⟨e', he', heid'⟩ := hcommitted.1
        exact ⟨DelegateEnv.exists_setOwner he' heid', fun _ => DelegateEnv.delegatedTo_setOwner⟩
      · exact hcommitted

theorem tablesAfter_pengawas (id : Int32) (asked : Nat) :
    (tablesAfter E id owner pengawas tables asked).pengawas =
      (DelegateEnv.delegated tables id owner pengawas).pengawas := by
  unfold tablesAfter
  cases owner with
  | none => rfl
  | some owner =>
      dsimp only
      split <;> rfl

end

/-- A delegation is all or nothing exactly when its transaction does not go through with a user that
is misjudged. -/
theorem allOrNothing_iff (E : DelegateEnv) (env : HandlerEnv) (req : Http.Request)
    (tables : Tables) :
    AllOrNothing E env req tables ↔
      (env.databaseConfigured = true →
        ¬ (Reaches req tables ∧
          E.GoesThrough (sessionAdminIdFrom req) (requestedOwner req) (requestedPengawas req) ∧
          Misjudged E (sessionAdminIdFrom req) (requestedOwner req) (requestedPengawas req))) := by
  unfold AllOrNothing
  refine forall_congr' fun hconfigured => ?_
  dsimp only
  by_cases h : Reaches req tables ∧
      E.GoesThrough (sessionAdminIdFrom req) (requestedOwner req) (requestedPengawas req)
  · obtain ⟨hreaches, hpass⟩ := h
    obtain ⟨id, hid, hstoi, hexam, hread⟩ := hreaches
    obtain ⟨m, hrun⟩ := delegateOn_pass env hid hstoi hexam hread hpass
    obtain ⟨hexists, howner⟩ := tablesAfter_exams E (requestedOwner req) (requestedPengawas req)
      id m hexam
    have hstatus : (delegateOn E env req tables).1.status = 200 := by
      rw [hrun]
      rfl
    have hrows : ∀ ids ∈ requestedPengawas req, ∀ user,
        (id, user) ∈ (delegateOn E env req tables).2.pengawas ↔ user ∈ ids := by
      intro ids hids user
      rw [hrun, tablesAfter_pengawas, Option.mem_def.mp hids]
      exact DelegateEnv.mem_withPengawas id user _ ids
    rw [hrun] at hrows
    constructor
    · rintro ⟨-, hall⟩ ⟨-, -, hmis⟩
      obtain ⟨_, -, -, -, -, hfits⟩ := hall hstatus
      exact (fits_iff hpass).mp hfits hmis
    · intro hmis
      refine ⟨fun hne => absurd hstatus hne, fun _ => ⟨id, hstoi, ?_, ?_, ?_, ?_⟩⟩
      · rwa [hrun]
      · rwa [hrun]
      · rwa [hrun]
      · exact (fits_iff hpass).mpr fun hmisjudged =>
          hmis ⟨⟨id, hid, hstoi, hexam, hread⟩, hpass, hmisjudged⟩
  · obtain ⟨hstatus, hsame⟩ := delegateOn_refused hconfigured h
    exact ⟨fun _ hall => h ⟨hall.1, hall.2.1⟩, fun _ => ⟨fun _ => hsame, fun h200 => absurd h200 hstatus⟩⟩

/-- An operator of an institution and a teacher of none, with a query for the operator's institution
that fails. -/
def strayQuery : DelegateEnv where
  users := [⟨4, str "active", str "[\"operator\"]", str "SMA 1"⟩,
    ⟨3, str "active", str "[\"guru\"]", []⟩]
  outcome k := if k = 2 then .fails else .succeeds

def strayRequest : Http.Request where
  headers := [(str "X-Internal-Admin-Id", str "4")].foldl (fun h kv => h.insert kv.1 kv.2) .empty
  body := str "\x7b\"new_owner_id\":3\x7d"
  params := [(str "exam_id", str "7")].foldl (fun h kv => h.insert kv.1 kv.2) .empty

theorem misjudged_strayQuery :
    Misjudged strayQuery (sessionAdminIdFrom strayRequest) (requestedOwner strayRequest)
      (requestedPengawas strayRequest) :=
  .inr (.inl (by decide +kernel))

theorem goesThrough_strayQuery :
    strayQuery.GoesThrough (sessionAdminIdFrom strayRequest) (requestedOwner strayRequest)
      (requestedPengawas strayRequest) := by
  have howner : requestedOwner strayRequest = some 3 := by decide +kernel
  have hpengawas : requestedPengawas strayRequest = none := by decide +kernel
  rw [howner, hpengawas]
  refine ⟨rfl, ⟨rfl, by decide +kernel, by decide +kernel⟩, fun i hle _ => ?_, nofun⟩
  have hi : 3 ≤ i := hle
  exact if_neg (by omega)

theorem not_allOrNothing :
    ¬ ∀ (E : DelegateEnv) env req tables, AllOrNothing E env req tables := by
  intro h
  have hall := h strayQuery {} strayRequest ⟨[{ id := 7 }], []⟩ rfl
  have hreaches : Reaches strayRequest ⟨[{ id := 7 }], []⟩ := by
    refine ⟨7, by decide +kernel, by decide +kernel, ⟨_, List.mem_cons_self, rfl⟩, fun hne => ?_⟩
    exact absurd (by decide +kernel) hne
  obtain ⟨id, hid, hstoi, hexam, hread⟩ := hreaches
  obtain ⟨m, hrun⟩ := delegateOn_pass {} hid hstoi hexam hread goesThrough_strayQuery
  obtain ⟨_, -, -, -, -, hfits⟩ := hall.2 (by rw [hrun]; rfl)
  exact (fits_iff goesThrough_strayQuery).mp hfits misjudged_strayQuery

end ExamVan.Admin
