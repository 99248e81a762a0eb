import ExamVan.Helpers.IsoUtc
import ExamVan.Lib.Transition
import ExamVan.Lib.Upsert
import ExamVan.Models.Exam
import Mathlib.Logic.Function.Basic

/-!
# The row of an exam in PostgreSQL

`ExamStorePostgres::update` selects the row, runs the mutator on its copy and writes back every
column but `id`, `created_by` and `created_at`. Its mutex is one for each process. The rotation, the
delegation and the approval setting are statements of their own on the same row, each of them
atomic, and wait for no mutex.
-/

namespace ExamVan.Store.Postgres

open ByteString Models

/-! ### Columns -/

/-- `kColumns`. -/
inductive Column
  | id | name | filePath | sizeBytes | token | activeToken | questionsJson | status | securityLevel
  | strictMode | publicResults | showAnswers | createdBy | createdAt | identityFields | panelColor
  | startTime | endTime | delegatedTo | tokenMode | tokenResetInterval | tokenLastResetAt
  | examStartedAt | tombstonedAt | congratsMessage | autoApprove
  deriving DecidableEq

inductive Cell
  | null
  | text (b : Bytes)
  | number (n : Int)
  | flag (b : Bool)
  deriving DecidableEq

def Cell.ofText : Option Bytes → Cell
  | none => .null
  | some b => .text b

def Cell.ofNumber : Option Int32 → Cell
  | none => .null
  | some n => .number n.toInt

def cell (e : Exam) : Column → Cell
  | .id => .number e.id.toInt
  | .name => .text e.name
  | .filePath => .text e.filePath
  | .sizeBytes => .number e.sizeBytes.toInt
  | .token => .text e.token
  | .activeToken => .text e.activeToken
  | .questionsJson => .ofText e.questionsJson
  | .status => .text e.status
  | .securityLevel => .text e.securityLevel
  | .strictMode => .number e.strictMode.toInt
  | .publicResults => .number e.publicResults.toInt
  | .showAnswers => .number e.showAnswers.toInt
  | .createdBy => .number e.createdBy.toInt
  | .createdAt => .text e.createdAt
  | .identityFields => .ofText e.identityFields
  | .panelColor => .ofText e.panelColor
  | .startTime => .ofText e.startTime
  | .endTime => .ofText e.endTime
  | .delegatedTo => .ofNumber e.delegatedTo
  | .tokenMode => .ofText e.tokenMode
  | .tokenResetInterval => .ofNumber e.tokenResetInterval
  | .tokenLastResetAt => .ofText e.tokenLastResetAt
  | .examStartedAt => .ofText e.examStartedAt
  | .tombstonedAt => .ofText e.tombstonedAt
  | .congratsMessage => .ofText e.congratsMessage
  | .autoApprove => .flag e.autoApprove

/-- A change of an exam that sets some of its columns and leaves the others alone. -/
structure Mutator where
  apply : Exam → Exam
  sets : Column → Bool
  frame : ∀ e c, sets c = false → cell (apply e) c = cell e c

/-- The columns of the `UPDATE` in `ExamStorePostgres::update`. -/
def rewritten (c : Column) : Bool := c ≠ .id ∧ c ≠ .createdBy ∧ c ≠ .createdAt

def rewriteRow (e row : Exam) : Exam :=
  { row with
    name := e.name
    filePath := e.filePath
    sizeBytes := e.sizeBytes
    token := e.token
    activeToken := e.activeToken
    status := e.status
    tokenMode := e.tokenMode
    tokenResetInterval := e.tokenResetInterval
    tokenLastResetAt := e.tokenLastResetAt
    examStartedAt := e.examStartedAt
    tombstonedAt := e.tombstonedAt
    questionsJson := e.questionsJson
    securityLevel := e.securityLevel
    strictMode := e.strictMode
    publicResults := e.publicResults
    showAnswers := e.showAnswers
    identityFields := e.identityFields
    panelColor := e.panelColor
    startTime := e.startTime
    endTime := e.endTime
    congratsMessage := e.congratsMessage
    autoApprove := e.autoApprove
    delegatedTo := e.delegatedTo }

theorem cell_rewriteRow (e row : Exam) (c : Column) :
    cell (rewriteRow e row) c = if rewritten c then cell e c else cell row c := by
  cases c <;> rfl

/-! ### Statements of their own -/

/-- `UPDATE exams SET active_token=$1, token_last_reset_at=$2`. -/
def setActiveToken (token now : Bytes) : Mutator where
  apply e := { e with activeToken := token, tokenLastResetAt := some now }
  sets c := c = .activeToken ∨ c = .tokenLastResetAt
  frame e c hc := by cases c <;> first | rfl | simp at hc

/-- `UPDATE exams SET delegated_to=$1`. -/
def setDelegatedTo (owner : Option Int32) : Mutator where
  apply e := { e with delegatedTo := owner }
  sets c := c = .delegatedTo
  frame e c hc := by cases c <;> first | rfl | simp at hc

/-- `UPDATE exams SET auto_approve=$2`. -/
def setAutoApprove (value : Bool) : Mutator where
  apply e := { e with autoApprove := value }
  sets c := c = .autoApprove
  frame e c hc := by cases c <;> first | rfl | simp at hc

/-- What `exam_by_token` brings into its transaction. -/
structure Rotation where
  now : Int
  interval : Int32
  resetRef : Bytes
  newToken : Bytes

/-- `SELECT ... FOR UPDATE` and the test on the row: another process has rotated already. -/
def rotatedElsewhere (parse : Bytes → Option Int) (r : Rotation) (row : Exam) : Bool :=
  let dbReset := row.tokenLastResetAt.getD []
  (parse (if dbReset = [] then r.resetRef else dbReset)).any fun resetAt =>
    r.now < Helpers.addMinutes resetAt r.interval

/-! ### Runs -/

/-- The row, the copy that an update of each process works on, and the history of what was last
committed in each column by an operation that sets it. -/
structure State where
  row : Exam
  inFlight : Nat → Option (Mutator × Exam)
  committed : Column → Cell

def State.commit (s : State) (m : Mutator) (row : Exam) : State :=
  { s with row := row, committed := Columns.commit m.sets (cell row) s.committed }

def State.setInFlight (s : State) (p : Nat) (f : Option (Mutator × Exam)) : State :=
  { s with inFlight := Function.update s.inFlight p f }

/-- A step, and whether its statements reach the database and succeed. -/
inductive Action
  | select (p : Nat) (m : Mutator) (ok : Bool)
  | rewrite (p : Nat) (ok : Bool)
  | rotate (r : Rotation) (ok : Bool)
  | delegate (owner : Option Int32) (ok : Bool)
  | autoApprove (value ok : Bool)

/-- A statement of its own, if it succeeds. -/
def State.statement (s : State) (m : Mutator) (ok : Bool) : State :=
  if ok then s.commit m (m.apply s.row) else s

/-- `parse` and `format` stand for `parse_iso_utc` and `format_iso_utc`. -/
def step? (parse : Bytes → Option Int) (format : Int → Bytes) (s : State) : Action → Option State
  | .select p m ok =>
      match s.inFlight p with
      | some _ => none
      | none => some (if ok then s.setInFlight p (some (m, s.row)) else s)
  | .rewrite p ok =>
      match s.inFlight p with
      | none => none
      | some (m, read) =>
          let left := s.setInFlight p none
          some (if ok then left.commit m (rewriteRow (m.apply read) s.row) else left)
  | .rotate r ok =>
      some (s.statement (setActiveToken r.newToken (format r.now))
        (ok && !rotatedElsewhere parse r s.row))
  | .delegate owner ok => some (s.statement (setDelegatedTo owner) ok)
  | .autoApprove value ok => some (s.statement (setAutoApprove value) ok)

/-- Any number of processes on a row that is in the database. -/
def examRow (parse : Bytes → Option Int) (format : Int → Bytes) (row : Exam) :
    System State Action where
  initial := ⟨row, fun _ => none, cell row⟩
  step? := step? parse format

def State.Kept (s : State) : Prop := Columns.Kept (cell s.row) s.committed

/-! ### Updates that lose nothing -/

/-- What an `UPDATE` must find: where it writes a column that the mutator has left alone, the row
still has the value that was selected. -/
def InSync (s : State) : Action → Prop
  | .rewrite p true => ∀ f ∈ s.inFlight p, ∀ c, rewritten c = true → f.1.sets c = false →
      cell f.2 c = cell s.row c
  | _ => True

variable {parse : Bytes → Option Int} {format : Int → Bytes} {s s' : State} {a : Action}

theorem kept_statement (m : Mutator) (ok : Bool) (hs : s.Kept) : (s.statement m ok).Kept := by
  cases ok with
  | false => exact hs
  | true => exact (Columns.kept_commit_iff hs).mpr fun c hc => m.frame s.row c hc

theorem kept_rewrite_iff (m : Mutator) (read : Exam) (hs : s.Kept) :
    (s.commit m (rewriteRow (m.apply read) s.row)).Kept ↔
      ∀ c, rewritten c = true → m.sets c = false → cell read c = cell s.row c := by
  rw [State.Kept, State.commit, Columns.kept_commit_iff hs]
  refine forall_congr' fun c => ?_
  rw [cell_rewriteRow]
  cases hc : rewritten c with
  | false => simp
  | true =>
      rw [if_pos rfl]
      exact ⟨fun h _ hleft => (m.frame read c hleft).symm.trans (h hleft),
        fun h hleft => (m.frame read c hleft).trans (h rfl hleft)⟩

theorem inSync_iff_kept (s : State) (a : Action) (hs : s.Kept) :
    InSync s a ↔ ∀ s' ∈ step? parse format s a, s'.Kept := by
  cases a with
  | select p m ok =>
      refine ⟨fun _ s' hs' => ?_, fun _ => trivial⟩
      simp only [step?] at hs'
      split at hs'
      · cases hs'
      · cases ok <;> cases hs' <;> exact hs
  | rewrite p ok =>
      cases hf : s.inFlight p with
      | none => cases ok <;> simp [InSync, step?, hf]
      | some f =>
          cases ok with
          | false => simpa [InSync, step?, hf, State.setInFlight, State.Kept] using hs
          | true =>
              have hiff : ((s.setInFlight p none).commit f.1 (rewriteRow (f.1.apply f.2) s.row)).Kept ↔
                  ∀ c, rewritten c = true → f.1.sets c = false → cell f.2 c = cell s.row c :=
                kept_rewrite_iff f.1 f.2 hs
              simpa [InSync, step?, hf] using hiff.symm
  | rotate | delegate | autoApprove =>
      refine ⟨fun _ s' hs' => ?_, fun _ => trivial⟩
      cases hs'
      exact kept_statement _ _ hs

/-- A run loses no update exactly if each of its `UPDATE`s is in sync with the row. -/
theorem no_lost_update_iff (parse : Bytes → Option Int) (format : Int → Bytes) (row : Exam)
    (actions : List Action) :
    (examRow parse format row).Along State.Kept (examRow parse format row).initial actions ↔
      (examRow parse format row).Guarded InSync (examRow parse format row).initial actions :=
  System.along_iff_guarded inSync_iff_kept fun _ => rfl

/-! ### Updates without a commit in between -/

/-- The columns that a step may change in the row. -/
def Action.sets (s : State) : Action → Column → Bool
  | .select _ _ _ => fun _ => false
  | .rewrite p _ => fun c => (s.inFlight p).any fun f => f.1.sets c
  | .rotate r _ => (setActiveToken r.newToken []).sets
  | .delegate owner _ => (setDelegatedTo owner).sets
  | .autoApprove value _ => (setAutoApprove value).sets

/-- Nothing is committed, between the `SELECT` and the `UPDATE` of an update, in a column that this
update does not set itself. -/
def Undisturbed (s : State) (a : Action) : Prop :=
  ∀ q, (∀ ok, a ≠ .rewrite q ok) → ∀ f ∈ s.inFlight q, ∀ c, a.sets s c = true → f.1.sets c = true

/-- Every copy agrees with the row where its update has nothing to set. -/
def Current (s : State) : Prop :=
  ∀ q, ∀ f ∈ s.inFlight q, ∀ c, f.1.sets c = false → cell f.2 c = cell s.row c

theorem inSync_of_current (hs : Current s) (a : Action) : InSync s a := by
  cases a with
  | rewrite p ok =>
      cases ok with
      | true => exact fun f hf c _ hleft => hs p f hf c hleft
      | false => trivial
  | _ => trivial

theorem row_statement (m : Mutator) (ok : Bool) {c : Column} (hc : m.sets c = false) :
    cell (s.statement m ok).row c = cell s.row c := by
  cases ok with
  | false => rfl
  | true => exact m.frame s.row c hc

/-- A step changes only the columns it is meant to set, if the copies are current. -/
theorem row_step (hs : Current s) (hstep : step? parse format s a = some s') {c : Column}
    (hc : a.sets s c = false) : cell s'.row c = cell s.row c := by
  cases a with
  | select p m ok =>
      simp only [step?] at hstep
      split at hstep
      · cases hstep
      · cases ok <;> cases hstep <;> rfl
  | rewrite p ok =>
      cases hf : s.inFlight p with
      | none => simp [step?, hf] at hstep
      | some f =>
          have hleft : f.1.sets c = false := by simpa [Action.sets, hf] using hc
          cases ok with
          | false =>
              simp only [step?, hf, Option.some.injEq] at hstep
              rw [← hstep]
              rfl
          | true =>
              simp only [step?, hf, if_true, Option.some.injEq] at hstep
              rw [← hstep, State.commit, cell_rewriteRow]
              split
              · exact (f.1.frame f.2 c hleft).trans (hs p f hf c hleft)
              · rfl
  | rotate | delegate | autoApprove =>
      cases hstep
      exact row_statement _ _ hc

theorem inFlight_step (hstep : step? parse format s a = some s') {q : Nat} {f : Mutator × Exam}
    (hf : f ∈ s'.inFlight q) :
    f.2 = s'.row ∨ f ∈ s.inFlight q ∧ ∀ ok, a ≠ .rewrite q ok := by
  have hstatement : ∀ m ok, s' = s.statement m ok → f ∈ s.inFlight q := by
    rintro m ok rfl
    cases ok <;> exact hf
  cases a with
  | select p m ok =>
      simp only [step?] at hstep
      split at hstep
      · cases hstep
      · cases ok with
        | false =>
            cases hstep
            exact .inr ⟨hf, fun ok => nofun⟩
        | true =>
            cases hstep
            by_cases hq : q = p
            · subst hq
              have hfm : (m, s.row) = f := by simpa [State.setInFlight] using hf
              exact .inl (hfm ▸ rfl)
            · exact .inr ⟨by simpa [State.setInFlight, hq] using hf, fun ok => nofun⟩
  | rewrite p ok =>
      have hinFlight : s'.inFlight = Function.update s.inFlight p none := by
        simp only [step?] at hstep
        split at hstep
        · cases hstep
        · cases ok <;> cases hstep <;> rfl
      by_cases hq : q = p
      · subst hq
        simp [hinFlight] at hf
      · refine .inr ⟨by simpa [hinFlight, hq] using hf, fun ok heq => hq ?_⟩
        cases heq
        rfl
  | rotate | delegate | autoApprove =>
      cases hstep
      exact .inr ⟨hstatement _ _ rfl, fun ok => nofun⟩

/-- No update is lost in a run that leaves its updates undisturbed. -/
theorem kept_of_undisturbed {row : Exam}
    (hreach : (examRow parse format row).Reachable Undisturbed s) : s.Kept := by
  have hcurrent : (examRow parse format row).Invariant Undisturbed Current :=
    { initial := fun q f hf => nomatch hf
      step := by
        intro s s' a hs hguard hstep q f hf c hleft
        obtain hread | ⟨hold, hother⟩ := inFlight_step hstep hf
        · rw [hread]
        · have hunset : a.sets s c = false := by
            by_contra hset
            have hsets := hguard q hother f hold c (by simpa using hset)
            exact absurd (hleft.symm.trans hsets) Bool.false_ne_true
          exact (hs q f hold c hleft).trans (row_step hs hstep hunset).symm }
  have hkept : (examRow parse format row).Invariant Undisturbed fun s => Current s ∧ s.Kept :=
    hcurrent.using (fun _ => rfl) fun hs hkept _ hstep =>
      (inSync_iff_kept _ _ hkept).mp (inSync_of_current hs _) _ hstep
  exact (hreach.holds hkept).2

/-- An exam is stopped while it is delegated. -/
def stopMutator : Mutator where
  apply e := { e with status := str "inactive", examStartedAt := none }
  sets c := c = .status ∨ c = .examStartedAt
  frame e c hc := by cases c <;> first | rfl | simp at hc

def staleRun : List Action :=
  [.select 0 stopMutator true, .delegate (some 5) true, .rewrite 0 true]

/-- The `UPDATE` of the stop takes the delegation back. -/
theorem not_no_lost_update :
    ¬ ∀ (parse : Bytes → Option Int) (format : Int → Bytes) (row : Exam) (actions : List Action),
      (examRow parse format row).Along State.Kept (examRow parse format row).initial actions := by
  intro h
  let S := examRow (fun _ => none) (fun _ => []) {}
  have hkept : (S.after staleRun).Kept := (h _ _ {} staleRun).last rfl
  have hlost : cell (S.after staleRun).row .delegatedTo ≠
      (S.after staleRun).committed .delegatedTo := by
    decide
  exact hlost (hkept .delegatedTo)

end ExamVan.Store.Postgres
