import ExamVan.Lib.Decimal
import ExamVan.Lib.Relation
import ExamVan.Store.Postgres

/-!
# The table of exams

The statements of `ExamStorePostgres` as they name columns and number parameters. Parameters are C
strings, or null pointers for NULL; PostgreSQL reads them by the type of the column and gives the
cells back as text, which `map_exam` decodes by position.
-/

namespace ExamVan.Store.Postgres

open ByteString Models Sql

/-! ### The schema -/

/-- The columns of `kColumns`, in its order. -/
def kColumns : List Column :=
  [.id, .name, .filePath, .sizeBytes, .token, .activeToken, .questionsJson, .status, .securityLevel,
    .strictMode, .publicResults, .showAnswers, .createdBy, .createdAt, .identityFields, .panelColor,
    .startTime, .endTime, .delegatedTo, .tokenMode, .tokenResetInterval, .tokenLastResetAt,
    .examStartedAt, .tombstonedAt, .congratsMessage, .autoApprove]

inductive ColumnType
  | text | integer | bigint | boolean
  deriving DecidableEq

def Column.type : Column → ColumnType
  | .id | .strictMode | .publicResults | .showAnswers | .createdBy | .delegatedTo
  | .tokenResetInterval => .integer
  | .sizeBytes => .bigint
  | .autoApprove => .boolean
  | _ => .text

/-- The columns of `kTableExams` without `NOT NULL`. -/
def Column.nullable : Column → Bool
  | .questionsJson | .identityFields | .panelColor | .startTime | .endTime | .delegatedTo
  | .tokenMode | .tokenResetInterval | .tokenLastResetAt | .examStartedAt | .tombstonedAt
  | .congratsMessage => true
  | _ => false

def Column.admits (c : Column) : Cell → Bool
  | .null => c.nullable
  | .text b => c.type = .text && !b.contains 0
  | .number n =>
      (c.type = .integer && -2 ^ 31 ≤ n && n < 2 ^ 31) ||
        (c.type = .bigint && -2 ^ 63 ≤ n && n < 2 ^ 63)
  | .flag _ => c.type = .boolean

/-- `kTableExams`. -/
def kTableExams : Schema Column Cell := ⟨kColumns, Column.admits, [.id, .token]⟩

abbrev ExamTable := Relation kTableExams

theorem mem_kColumns (c : Column) : c ∈ kColumns := by cases c <;> decide

/-! ### Parameters -/

/-- `p.c_str()` ends at the first NUL. -/
def cStr (b : Bytes) : Bytes := b.takeWhile (· ≠ 0)

/-- How PostgreSQL reads a parameter into a column: a number from its decimal text, a flag from the
words that `add` and `update` send. -/
def readParam (c : Column) : Option Bytes → Option Cell
  | none => some .null
  | some b =>
      match c.type with
      | .text => some (.text (cStr b))
      | .integer | .bigint => (strtol (cStr b)).map .number
      | .boolean =>
          if cStr b = str "true" then some (.flag true)
          else if cStr b = str "false" then some (.flag false)
          else none

def readParams (params : List (Column × Option Bytes)) : Option (List (Column × Cell)) :=
  params.mapM fun p => (readParam p.1 p.2).map fun v => (p.1, v)

def numberParam (n : Int) : Option Bytes := some (intText n)

def flagParam (b : Bool) : Option Bytes := some (if b then str "true" else str "false")

/-- The parameters of `add`, in the order of `kColumns`. -/
def addParams (e : Exam) : List (Option Bytes) :=
  [numberParam e.id.toInt, some e.name, some e.filePath, numberParam e.sizeBytes.toInt, some e.token,
    some e.activeToken, e.questionsJson, some e.status, some e.securityLevel,
    numberParam e.strictMode.toInt, numberParam e.publicResults.toInt,
    numberParam e.showAnswers.toInt, numberParam e.createdBy.toInt, some e.createdAt,
    e.identityFields, e.panelColor, e.startTime, e.endTime,
    e.delegatedTo.bind fun n => numberParam n.toInt, e.tokenMode,
    e.tokenResetInterval.bind fun n => numberParam n.toInt, e.tokenLastResetAt, e.examStartedAt,
    e.tombstonedAt, e.congratsMessage, flagParam e.autoApprove]

/-- The `SET` list of `update`: each column with the number of its parameter. -/
def updateColumns : List (Column × Nat) :=
  [(.name, 1), (.filePath, 2), (.sizeBytes, 3), (.token, 4), (.activeToken, 5), (.status, 6),
    (.tokenMode, 7), (.tokenResetInterval, 8), (.tokenLastResetAt, 9), (.examStartedAt, 10),
    (.tombstonedAt, 11), (.questionsJson, 12), (.securityLevel, 13), (.strictMode, 14),
    (.publicResults, 15), (.showAnswers, 16), (.identityFields, 17), (.panelColor, 18),
    (.startTime, 19), (.endTime, 20), (.congratsMessage, 21), (.autoApprove, 22), (.delegatedTo, 23)]

/-- The parameters of `update`, where `$24` is the id of the `WHERE`. -/
def updateParams (e : Exam) (id : Int32) : List (Option Bytes) :=
  [some e.name, some e.filePath, numberParam e.sizeBytes.toInt, some e.token, some e.activeToken,
    some e.status, e.tokenMode, e.tokenResetInterval.bind fun n => numberParam n.toInt,
    e.tokenLastResetAt, e.examStartedAt, e.tombstonedAt, e.questionsJson, some e.securityLevel,
    numberParam e.strictMode.toInt, numberParam e.publicResults.toInt,
    numberParam e.showAnswers.toInt, e.identityFields, e.panelColor, e.startTime, e.endTime,
    e.congratsMessage, flagParam e.autoApprove, e.delegatedTo.bind fun n => numberParam n.toInt,
    numberParam id.toInt]

def param (params : List (Option Bytes)) (number : Nat) : Option Bytes :=
  params.getD (number - 1) none

/-! ### Results -/

def Cell.show : Cell → Option Bytes
  | .null => none
  | .text b => some b
  | .number n => some (intText n)
  | .flag b => some (if b then str "t" else str "f")

/-- `map_exam` on one row of a result, with `none` where `stoi` or `stoll` throws. -/
def mapExam (r : List (Option Bytes)) : Option Exam := do
  let nullable col := r.getD col none
  let value col := (nullable col).getD []
  let nullableInt col : Option (Option Int32) :=
    match nullable col with
    | none => some none
    | some v => (stoi v).map some
  let id ← stoi (value 0)
  let sizeBytes ← stoll (value 3)
  let strictMode ← stoi (value 9)
  let publicResults ← stoi (value 10)
  let showAnswers ← stoi (value 11)
  let createdBy ← stoi (value 12)
  let delegatedTo ← nullableInt 18
  let tokenResetInterval ← nullableInt 20
  return {
    id, name := value 1, filePath := value 2, sizeBytes, token := value 4, activeToken := value 5
    questionsJson := nullable 6, status := value 7, securityLevel := value 8, strictMode
    publicResults, showAnswers, createdBy, createdAt := value 13, identityFields := nullable 14
    panelColor := nullable 15, startTime := nullable 16, endTime := nullable 17, delegatedTo
    tokenMode := nullable 19, tokenResetInterval, tokenLastResetAt := nullable 21
    examStartedAt := nullable 22, tombstonedAt := nullable 23, congratsMessage := nullable 24
    autoApprove := value 25 = str "t" ∨ value 25 = str "true" ∨ value 25 = str "1" }

/-- `SELECT kColumns FROM exams WHERE …`. -/
def queryExams (t : ExamTable) (p : (Column → Cell) → Bool) : Option (List Exam) :=
  (t.rows.filter p).mapM fun row => mapExam (kColumns.map fun c => (row c).show)

/-! ### Cells as parameters and as results -/

def Cell.param : Cell → Option Bytes
  | .null => none
  | .text b => some b
  | .number n => numberParam n
  | .flag b => flagParam b

@[simp]
theorem param_ofText (o : Option Bytes) : (Cell.ofText o).param = o := by cases o <;> rfl

@[simp]
theorem param_ofNumber (o : Option Int32) :
    (Cell.ofNumber o).param = o.bind fun n => numberParam n.toInt := by
  cases o <;> rfl

@[simp]
theorem show_ofText (o : Option Bytes) : (Cell.ofText o).show = o := by cases o <;> rfl

theorem cStr_eq_self {b : Bytes} (h : 0 ∉ b) : cStr b = b := by
  refine List.takeWhile_eq_self_iff.mpr fun c hc => ?_
  have hne : c ≠ 0 := fun heq => h (heq ▸ hc)
  simpa using hne

theorem cStr_intText (n : Int) : cStr (intText n) = intText n := by
  refine cStr_eq_self fun hmem => ?_
  obtain hminus | hdigit := mem_intText hmem
  · exact absurd hminus (by decide)
  · exact absurd hdigit (by decide)

/-- PostgreSQL reads back what a cell was sent as. -/
theorem readParam_param {c : Column} {v : Cell} (h : c.admits v = true) :
    readParam c v.param = some v := by
  cases v with
  | null => rfl
  | text b =>
      obtain ⟨htype, hnul⟩ : c.type = .text ∧ 0 ∉ b := by simpa [Column.admits] using h
      simp [readParam, Cell.param, htype, cStr_eq_self hnul]
  | number n =>
      have htype : c.type = .integer ∨ c.type = .bigint := by
        simp only [Column.admits, Bool.or_eq_true, Bool.and_eq_true, decide_eq_true_eq] at h
        exact h.imp (fun h => h.1.1) fun h => h.1.1
      have hread : readParam c (numberParam n) = (strtol (cStr (intText n))).map .number := by
        obtain htype | htype := htype <;> simp only [readParam, numberParam, htype]
      rw [Cell.param, hread, cStr_intText, strtol_intText]
      rfl
  | flag b =>
      have htype : c.type = .boolean := by simpa [Column.admits] using h
      cases b <;> simp only [Cell.param, readParam, flagParam, htype] <;> decide

theorem readParams_param {columns : List Column} {row : Column → Cell}
    (h : ∀ c ∈ columns, c.admits (row c) = true) :
    readParams (columns.map fun c => (c, (row c).param)) = some (columns.map fun c => (c, row c)) := by
  induction columns with
  | nil => rfl
  | cons c columns ih =>
      have hrest := ih fun b hb => h b (List.mem_cons_of_mem c hb)
      rw [readParams] at hrest ⊢
      rw [List.map_cons, List.mapM_cons, readParam_param (h c List.mem_cons_self), hrest]
      rfl

/-! ### No parameter is misnumbered -/

theorem addParams_eq (e : Exam) : addParams e = kColumns.map fun c => (cell e c).param := by
  simp only [kColumns, List.map_cons, List.map_nil, cell, param_ofText, param_ofNumber]
  rfl

theorem zip_addParams (e : Exam) :
    kColumns.zip (addParams e) = kColumns.map fun c => (c, (cell e c).param) := by
  have hzip : (kColumns.map id).zip (kColumns.map fun c => (cell e c).param) =
      kColumns.map fun c => (c, (cell e c).param) := List.zip_map'
  rwa [List.map_id, ← addParams_eq] at hzip

theorem updateColumns_params (e : Exam) (id : Int32) :
    (updateColumns.map fun a => (a.1, param (updateParams e id) a.2)) =
      (updateColumns.map Prod.fst).map fun c => (c, (cell e c).param) := by
  simp only [updateColumns, List.map_cons, List.map_nil, cell, param_ofText, param_ofNumber]
  rfl

theorem mem_updateColumns_iff (c : Column) : c ∈ updateColumns.map Prod.fst ↔ rewritten c = true := by
  cases c <;> decide

/-! ### No result is misplaced -/

@[simp]
theorem show_number (n : Int) : (Cell.number n).show = some (intText n) := rfl

@[simp]
theorem show_text (b : Bytes) : (Cell.text b).show = some b := rfl

theorem mapExam_cell (e : Exam) : mapExam (kColumns.map fun c => (cell e c).show) = some e := by
  have hint : ∀ o : Option Int32, (match (Cell.ofNumber o).show with
      | none => some none
      | some v => (stoi v).map some) = some o := by
    intro o
    cases o with
    | none => rfl
    | some n => exact congrArg (Option.map some) (stoi_intText n)
  have hflag : ∀ b : Bool, decide ((((Cell.flag b).show.getD []) = str "t") ∨
      (((Cell.flag b).show.getD []) = str "true") ∨
      (((Cell.flag b).show.getD []) = str "1")) = b := by
    decide
  simp only [mapExam, kColumns, List.map_cons, List.map_nil, cell, List.getD_cons_zero,
    List.getD_cons_succ, show_number, show_text, show_ofText, Option.getD_some, stoi_intText,
    stoll_intText, hint, hflag, Option.bind_eq_bind, Option.bind_some, Option.pure_def]

/-! ### Rows of exams -/

section

variable {row : Column → Cell} {c : Column}

theorem exists_text (h : c.admits (row c) = true) (htype : c.type = .text)
    (hnull : c.nullable = false) : ∃ b, row c = .text b := by
  cases hv : row c <;> simp_all [Column.admits]

theorem exists_ofText (h : c.admits (row c) = true) (htype : c.type = .text) :
    ∃ o, row c = Cell.ofText o := by
  cases hv : row c with
  | null => exact ⟨none, rfl⟩
  | text b => exact ⟨some b, rfl⟩
  | number n => simp [Column.admits, hv, htype] at h
  | flag b => simp [Column.admits, hv, htype] at h

theorem exists_integer {n : Int} (h : c.admits (.number n) = true) (htype : c.type = .integer) :
    ∃ i : Int32, n = i.toInt := by
  have hrange : -2 ^ 31 ≤ n ∧ n < 2 ^ 31 := by simpa [Column.admits, htype] using h
  exact ⟨Int32.ofInt n, (Int32.toInt_ofInt_of_le hrange.1 hrange.2).symm⟩

theorem exists_number (h : c.admits (row c) = true) (htype : c.type = .integer)
    (hnull : c.nullable = false) : ∃ i : Int32, row c = .number i.toInt := by
  cases hv : row c with
  | number n =>
      obtain ⟨i, rfl⟩ := exists_integer (hv ▸ h) htype
      exact ⟨i, rfl⟩
  | null | text | flag => simp [Column.admits, hv, htype, hnull] at h

theorem exists_ofNumber (h : c.admits (row c) = true) (htype : c.type = .integer) :
    ∃ o, row c = Cell.ofNumber o := by
  cases hv : row c with
  | null => exact ⟨none, rfl⟩
  | number n =>
      obtain ⟨i, rfl⟩ := exists_integer (hv ▸ h) htype
      exact ⟨some i, rfl⟩
  | text | flag => simp [Column.admits, hv, htype] at h

theorem exists_bigint (h : c.admits (row c) = true) (htype : c.type = .bigint)
    (hnull : c.nullable = false) : ∃ i : Int64, row c = .number i.toInt := by
  cases hv : row c with
  | number n =>
      have hrange : -2 ^ 63 ≤ n ∧ n < 2 ^ 63 := by simpa [Column.admits, hv, htype] using h
      exact ⟨Int64.ofInt n, by rw [Int64.toInt_ofInt_of_le hrange.1 hrange.2]⟩
  | null | text | flag => simp [Column.admits, hv, htype, hnull] at h

theorem exists_flag (h : c.admits (row c) = true) (htype : c.type = .boolean)
    (hnull : c.nullable = false) : ∃ b, row c = .flag b := by
  cases hv : row c <;> simp_all [Column.admits]

/-- A row that the schema admits is the row of an exam. -/
theorem exists_exam (h : kTableExams.Admits row) : ∃ e, row = cell e := by
  have hc : ∀ c : Column, c.admits (row c) = true := fun c => h c (mem_kColumns c)
  obtain ⟨id, hid⟩ := exists_number (hc .id) rfl rfl
  obtain ⟨name, hname⟩ := exists_text (hc .name) rfl rfl
  obtain ⟨filePath, hfilePath⟩ := exists_text (hc .filePath) rfl rfl
  obtain ⟨sizeBytes, hsizeBytes⟩ := exists_bigint (hc .sizeBytes) rfl rfl
  obtain ⟨token, htoken⟩ := exists_text (hc .token) rfl rfl
  obtain ⟨activeToken, hactiveToken⟩ := exists_text (hc .activeToken) rfl rfl
  obtain ⟨questionsJson, hquestionsJson⟩ := exists_ofText (hc .questionsJson) rfl
  obtain ⟨status, hstatus⟩ := exists_text (hc .status) rfl rfl
  obtain ⟨securityLevel, hsecurityLevel⟩ := exists_text (hc .securityLevel) rfl rfl
  obtain ⟨strictMode, hstrictMode⟩ := exists_number (hc .strictMode) rfl rfl
  obtain ⟨publicResults, hpublicResults⟩ := exists_number (hc .publicResults) rfl rfl
  obtain ⟨showAnswers, hshowAnswers⟩ := exists_number (hc .showAnswers) rfl rfl
  obtain ⟨createdBy, hcreatedBy⟩ := exists_number (hc .createdBy) rfl rfl
  obtain ⟨createdAt, hcreatedAt⟩ := exists_text (hc .createdAt) rfl rfl
  obtain ⟨identityFields, hidentityFields⟩ := exists_ofText (hc .identityFields) rfl
  obtain ⟨panelColor, hpanelColor⟩ := exists_ofText (hc .panelColor) rfl
  obtain ⟨startTime, hstartTime⟩ := exists_ofText (hc .startTime) rfl
  obtain ⟨endTime, hendTime⟩ := exists_ofText (hc .endTime) rfl
  obtain ⟨delegatedTo, hdelegatedTo⟩ := exists_ofNumber (hc .delegatedTo) rfl
  obtain ⟨tokenMode, htokenMode⟩ := exists_ofText (hc .tokenMode) rfl
  obtain ⟨tokenResetInterval, htokenResetInterval⟩ := exists_ofNumber (hc .tokenResetInterval) rfl
  obtain ⟨tokenLastResetAt, htokenLastResetAt⟩ := exists_ofText (hc .tokenLastResetAt) rfl
  obtain ⟨examStartedAt, hexamStartedAt⟩ := exists_ofText (hc .examStartedAt) rfl
  obtain ⟨tombstonedAt, htombstonedAt⟩ := exists_ofText (hc .tombstonedAt) rfl
  obtain ⟨congratsMessage, hcongratsMessage⟩ := exists_ofText (hc .congratsMessage) rfl
  obtain ⟨autoApprove, hautoApprove⟩ := exists_flag (hc .autoApprove) rfl rfl
  refine ⟨⟨id, name, filePath, sizeBytes, token, activeToken, questionsJson, status, securityLevel,
    strictMode, publicResults, showAnswers, createdBy, createdAt, identityFields, panelColor,
    congratsMessage, startTime, endTime, delegatedTo, tokenMode, tokenResetInterval,
    tokenLastResetAt, examStartedAt, autoApprove, tombstonedAt⟩, ?_⟩
  funext c
  cases c <;> assumption

end

theorem cell_injective {e e' : Exam} (h : cell e = cell e') : e = e' := by
  have hmap : some e = some e' := by rw [← mapExam_cell e, h, mapExam_cell e']
  exact Option.some.inj hmap

def Cell.noNul : Cell → Bool
  | .text b => !b.contains 0
  | _ => true

/-- The strings of an exam hold no NUL. -/
def NoNul (e : Exam) : Prop := ∀ c ∈ kColumns, (cell e c).noNul = true

instance (e : Exam) : Decidable (NoNul e) := inferInstanceAs (Decidable (∀ c ∈ kColumns, _))

section

variable {c : Column}

theorem admits_text (b : Bytes) (htype : c.type = .text) :
    c.admits (.text b) = (Cell.text b).noNul := by
  simp [Column.admits, Cell.noNul, htype]

theorem admits_ofText (o : Option Bytes) (htype : c.type = .text) (hnull : c.nullable = true) :
    c.admits (.ofText o) = (Cell.ofText o).noNul := by
  cases o with
  | none => exact hnull
  | some b => exact admits_text b htype

theorem admits_integer (i : Int32) (htype : c.type = .integer) :
    c.admits (.number i.toInt) = true := by
  have hrange : -2 ^ 31 ≤ i.toInt ∧ i.toInt < 2 ^ 31 := ⟨i.le_toInt, i.toInt_lt⟩
  simpa [Column.admits, htype] using hrange

theorem admits_ofNumber (o : Option Int32) (htype : c.type = .integer) (hnull : c.nullable = true) :
    c.admits (.ofNumber o) = (Cell.ofNumber o).noNul := by
  cases o with
  | none => exact hnull
  | some i => exact admits_integer i htype

theorem admits_bigint (i : Int64) (htype : c.type = .bigint) :
    c.admits (.number i.toInt) = true := by
  have hrange : -2 ^ 63 ≤ i.toInt ∧ i.toInt < 2 ^ 63 := ⟨i.le_toInt, i.toInt_lt⟩
  simpa [Column.admits, htype] using hrange

end

/-- The schema admits the row of every exam without NUL. -/
theorem admits_cell (e : Exam) (c : Column) : c.admits (cell e c) = (cell e c).noNul := by
  cases c
  case id | strictMode | publicResults | showAnswers | createdBy => exact admits_integer _ rfl
  case sizeBytes => exact admits_bigint _ rfl
  case autoApprove => rfl
  case delegatedTo | tokenResetInterval => exact admits_ofNumber _ rfl rfl
  case name | filePath | token | activeToken | status | securityLevel | createdAt =>
    exact admits_text _ rfl
  all_goals exact admits_ofText _ rfl rfl

theorem admits_cell_iff (e : Exam) : kTableExams.Admits (cell e) ↔ NoNul e :=
  forall₂_congr fun c _ => iff_of_eq (congrArg (· = true) (admits_cell e c))

/-! ### Queries -/

/-- The exams of the rows that a `WHERE` selects. -/
def select (t : ExamTable) (p : (Column → Cell) → Bool) : List Exam := (queryExams t p).getD []

theorem mapM_mapExam {rows : List (Column → Cell)} (h : ∀ row ∈ rows, kTableExams.Admits row) :
    ∃ exams : List Exam, rows = exams.map cell ∧
      (rows.mapM fun row => mapExam (kColumns.map fun c => (row c).show)) = some exams := by
  induction rows with
  | nil => exact ⟨[], rfl, rfl⟩
  | cons row rows ih =>
      obtain ⟨e, rfl⟩ := exists_exam (h row List.mem_cons_self)
      obtain ⟨exams, rfl, hexams⟩ := ih fun r hr => h r (List.mem_cons_of_mem _ hr)
      refine ⟨e :: exams, rfl, ?_⟩
      rw [List.mapM_cons, mapExam_cell, hexams]
      rfl

/-- `stoi` and `stoll` never throw on a row of the table. -/
theorem queryExams_eq (t : ExamTable) (p : (Column → Cell) → Bool) :
    queryExams t p = some (select t p) ∧ t.rows.filter p = (select t p).map cell := by
  have hadmits : ∀ row ∈ t.rows.filter p, kTableExams.Admits row :=
    fun row hrow => t.valid.admits row (List.mem_filter.mp hrow).1
  obtain ⟨exams, hrows, hexams⟩ := mapM_mapExam hadmits
  have hquery : queryExams t p = some exams := hexams
  have hselect : select t p = exams := by rw [select, hquery, Option.getD_some]
  rw [hselect]
  exact ⟨hquery, hrows⟩

/-- What the table stores. -/
def exams (t : ExamTable) : List Exam := select t fun _ => true

theorem rows_eq (t : ExamTable) : t.rows = (exams t).map cell := by
  have h := (queryExams_eq t fun _ => true).2
  rwa [List.filter_true] at h

theorem exams_eq_of_rows {t : ExamTable} {es : List Exam} (h : t.rows = es.map cell) :
    exams t = es :=
  (List.map_injective_iff.mpr fun _ _ => cell_injective) ((rows_eq t).symm.trans h)

theorem select_eq (t : ExamTable) (p : (Column → Cell) → Bool) :
    select t p = (exams t).filter fun e => p (cell e) := by
  have h := (queryExams_eq t p).2
  rw [rows_eq t, List.filter_map] at h
  exact ((List.map_injective_iff.mpr fun _ _ => cell_injective) h).symm

theorem nodup_unique (t : ExamTable) {α : Type*} {c : Column} (hc : c ∈ kTableExams.unique)
    (f : Exam → α) (h : ∀ e e', f e = f e' → cell e c = cell e' c) : ((exams t).map f).Nodup := by
  have hnodup := t.valid.unique c hc
  rw [rows_eq t, List.map_map] at hnodup
  have hpairwise := List.pairwise_map.mp hnodup
  exact List.pairwise_map.mpr (hpairwise.imp fun hne heq => hne (h _ _ heq))

end ExamVan.Store.Postgres
