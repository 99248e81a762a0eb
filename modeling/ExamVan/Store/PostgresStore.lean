import ExamVan.Store.ExamTable

/-!
# The PostgreSQL store

The operations of `ExamStorePostgres` on the table of exams, and what each does to the stored exams.
-/

namespace ExamVan.Store

open ByteString Models Sql Postgres

structure PostgresStore where
  table : ExamTable
  /-- The next value of the sequence that `exams.id` owns. `migrate` creates a sequence that no
  column owns. -/
  sequence : Option Int

namespace PostgresStore

/-! ### Operations -/

/-- `nextval(pg_get_serial_sequence('exams','id'))` is NULL without an owned sequence. -/
def nextId (s : PostgresStore) : Int32 × PostgresStore :=
  match s.sequence with
  | none => ((stoi []).getD 1, s)
  | some n => ((stoi (intText n)).getD 1, { s with sequence := some (n + 1) })

/-- `exec_command_nullable`: whether the statement went through, and what it left. -/
def exec (s : PostgresStore) : Option ExamTable → Bool × PostgresStore
  | none => (false, s)
  | some table => (true, { s with table })

/-- `c=$1` in a `WHERE`. -/
def equals (c : Column) (p : Option Bytes) (row : Column → Cell) : Bool :=
  readParam c p = some (row c)

def hasId (id : Int32) : (Column → Cell) → Bool := equals .id (numberParam id.toInt)

def add (s : PostgresStore) (e : Exam) : Bool × PostgresStore :=
  s.exec do
    let values ← readParams (kColumns.zip (addParams e))
    s.table.insert? (assign (fun _ => .null) values)

def getById (s : PostgresStore) (id : Int32) : Option Exam := (select s.table (hasId id)).head?

/-- `ORDER BY id`. -/
def listAll (s : PostgresStore) : List Exam :=
  (select s.table fun _ => true).mergeSort fun e e' => e.id ≤ e'.id

def tokenExists (s : PostgresStore) (t : Bytes) (excludeId : Int32) : Bool :=
  select s.table (fun row =>
    equals .token (some t) row && (excludeId ≤ 0 || !hasId excludeId row)) ≠ []

def claimToken (s : PostgresStore) (t : Bytes) : Bool := !s.tokenExists t 0

/-- The query is that of `token_exists`. -/
def claimTokenIfAbsent (s : PostgresStore) (t : Bytes) (excludeId : Int32) : Bool :=
  !s.tokenExists t excludeId

def update (s : PostgresStore) (id : Int32) (mutator : Exam → Exam) : Bool × PostgresStore :=
  match s.getById id with
  | none => (false, s)
  | some e =>
      let params := updateParams (mutator e) id
      s.exec do
        let values ← readParams (updateColumns.map fun a => (a.1, param params a.2))
        s.table.update? (equals .id (param params 24)) fun row => assign row values

/-- A `DELETE` that finds no row succeeds as well. -/
def remove (s : PostgresStore) (id : Int32) : Bool × PostgresStore :=
  s.exec (some (s.table.delete (hasId id)))

def count (s : PostgresStore) : Nat := (select s.table fun _ => true).length

/-! ### What they do to the stored exams -/

def exams (s : PostgresStore) : List Exam := Postgres.exams s.table

variable (s : PostgresStore) {id : Int32} {e : Exam} {mutator : Exam → Exam}

theorem hasId_cell (id : Int32) (e : Exam) : hasId id (cell e) = decide (e.id = id) := by
  have hread : readParam .id (numberParam id.toInt) = some (.number id.toInt) := by
    simp [readParam, numberParam, Column.type, cStr_intText, strtol_intText]
  have hiff : (Cell.number id.toInt = Cell.number e.id.toInt) ↔ e.id = id := by
    rw [Cell.number.injEq, Int32.toInt_inj, eq_comm]
  simp only [hasId, equals, hread, cell, Option.some.injEq, hiff]

theorem equals_token (t : Bytes) (e : Exam) :
    equals .token (some t) (cell e) = decide (e.token = cStr t) := by
  have hiff : (Cell.text (cStr t) = Cell.text e.token) ↔ e.token = cStr t := by
    rw [Cell.text.injEq, eq_comm]
  simp only [equals, readParam, Column.type, cell, Option.some.injEq, hiff]

theorem nodup_ids : (s.exams.map Exam.id).Nodup :=
  nodup_unique s.table (c := .id) (by decide) _ fun e e' h => by simp [cell, h]

theorem nodup_tokens : (s.exams.map Exam.token).Nodup :=
  nodup_unique s.table (c := .token) (by decide) _ fun e e' h => by simp [cell, h]

theorem getById_eq : s.getById id = s.exams.find? fun e => e.id = id := by
  rw [getById, select_eq, List.head?_filter]
  simp only [hasId_cell]
  rfl

theorem listAll_eq : s.listAll = s.exams.mergeSort fun e e' => e.id ≤ e'.id := rfl

theorem count_eq : s.count = s.exams.length := rfl

theorem tokenExists_eq (t : Bytes) (excludeId : Int32) :
    s.tokenExists t excludeId =
      s.exams.any fun e => e.token = cStr t && (excludeId ≤ 0 || e.id ≠ excludeId) := by
  have hselect : select s.table (fun row =>
        equals .token (some t) row && (excludeId ≤ 0 || !hasId excludeId row)) =
      s.exams.filter fun e => e.token = cStr t && (excludeId ≤ 0 || e.id ≠ excludeId) := by
    simp only [select_eq, equals_token, hasId_cell, exams, decide_not]
  rw [tokenExists, hselect, Bool.eq_iff_iff]
  simp only [ne_eq, decide_eq_true_eq, List.filter_eq_nil_iff, List.any_eq_true, not_forall,
    not_not, exists_prop]

theorem exec_of_isSome {t : Option ExamTable} (h : t.isSome = true) :
    ∃ table, t = some table ∧ s.exec t = (true, { s with table }) := by
  obtain ⟨table, rfl⟩ := Option.isSome_iff_exists.mp h
  exact ⟨table, rfl, rfl⟩

theorem exec_of_not_isSome {t : Option ExamTable} (h : ¬ t.isSome = true) : s.exec t = (false, s) := by
  rw [Option.not_isSome_iff_eq_none.mp h]
  rfl

/-- The parameters of `add` give every column the cell of the exam. -/
theorem add_eq_exec (h : NoNul e) : s.add e = s.exec (s.table.insert? (cell e)) := by
  have hvalues : readParams (kColumns.zip (addParams e)) =
      some (kColumns.map fun c => (c, cell e c)) := by
    rw [zip_addParams]
    exact readParams_param ((admits_cell_iff e).mpr h)
  have hrow : assign (fun _ => Cell.null) (kColumns.map fun c => (c, cell e c)) = cell e := by
    rw [assign_map]
    funext c
    exact if_pos (mem_kColumns c)
  rw [add, hvalues]
  exact congrArg (fun row => s.exec (s.table.insert? row)) hrow

/-- Two exams agree in a unique column if they have the same id or the same token. -/
theorem unique_iff (others : List Exam) (e : Exam) :
    (∀ c ∈ kTableExams.unique, ∀ row ∈ others.map cell, row c ≠ cell e c) ↔
      ∀ other ∈ others, other.id ≠ e.id ∧ other.token ≠ e.token := by
  have hcells : ∀ other : Exam, (∀ c ∈ kTableExams.unique, cell other c ≠ cell e c) ↔
      other.id ≠ e.id ∧ other.token ≠ e.token := by
    intro other
    simp [kTableExams, cell, Int32.toInt_inj]
  constructor
  · intro h other hother
    exact (hcells other).mp fun c hc => h c hc _ (List.mem_map_of_mem hother)
  · intro h c hc row hrow
    obtain ⟨other, hother, rfl⟩ := List.mem_map.mp hrow
    exact (hcells other).mpr (h other hother) c hc

theorem isSome_insert_iff (h : NoNul e) :
    (s.table.insert? (cell e)).isSome = true ↔
      ∀ other ∈ s.exams, other.id ≠ e.id ∧ other.token ≠ e.token := by
  rw [Relation.isSome_insert?_iff, rows_eq, ← unique_iff]
  exact and_iff_right ((admits_cell_iff e).mpr h)

theorem add_of_free (h : NoNul e)
    (hfree : ∀ other ∈ s.exams, other.id ≠ e.id ∧ other.token ≠ e.token) :
    ∃ s', s.add e = (true, s') ∧ s'.exams = s.exams ++ [e] ∧ s'.sequence = s.sequence := by
  obtain ⟨table, htable, hexec⟩ := s.exec_of_isSome ((s.isSome_insert_iff h).mpr hfree)
  refine ⟨{ s with table }, (s.add_eq_exec h).trans hexec, exams_eq_of_rows ?_, rfl⟩
  rw [Relation.rows_of_insert? htable, rows_eq, List.map_append]
  rfl

theorem add_of_taken (h : NoNul e)
    (htaken : ¬ ∀ other ∈ s.exams, other.id ≠ e.id ∧ other.token ≠ e.token) :
    s.add e = (false, s) := by
  rw [s.add_eq_exec h]
  exact s.exec_of_not_isSome fun hsome => htaken ((s.isSome_insert_iff h).mp hsome)

/-! ### Updates -/

/-- No other exam has the id of one in the store. -/
theorem others_of_split {before after : List Exam} (hsplit : s.exams = before ++ e :: after) :
    ∀ other ∈ before ++ after, other.id ≠ e.id := by
  have hnodup := s.nodup_ids
  rw [hsplit, (List.perm_middle.map Exam.id).nodup_iff, List.map_cons, List.nodup_cons] at hnodup
  intro other hother heq
  refine hnodup.1 ?_
  rw [← heq]
  exact List.mem_map_of_mem hother

theorem split_of_getById (h : s.getById id = some e) :
    ∃ before after, e.id = id ∧ s.exams = before ++ e :: after := by
  rw [getById_eq] at h
  obtain ⟨hid, before, after, hsplit, -⟩ := List.find?_eq_some_iff_append.mp h
  exact ⟨before, after, by simpa using hid, hsplit⟩

/-- The `SET` list writes the columns of the copy into the row. -/
theorem assign_updateColumns (e old : Exam) :
    assign (cell old) ((updateColumns.map Prod.fst).map fun c => (c, cell e c)) =
      cell (rewriteRow e old) := by
  rw [assign_map]
  funext c
  rw [cell_rewriteRow]
  exact if_congr (mem_updateColumns_iff c) rfl rfl

theorem rewriteRow_of_kept {e old : Exam}
    (h : e.id = old.id ∧ e.createdBy = old.createdBy ∧ e.createdAt = old.createdAt) :
    rewriteRow e old = e := by
  obtain ⟨hid, hby, hat⟩ := h
  cases e
  cases old
  simp only at hid hby hat
  subst hid hby hat
  rfl

/-- `update` is one `UPDATE` of the row that it has read. -/
theorem update_eq_exec (h : s.getById id = some e) (hnul : NoNul (mutator e)) :
    s.update id mutator = s.exec (s.table.update? (hasId id) fun row =>
      assign row ((updateColumns.map Prod.fst).map fun c => (c, cell (mutator e) c))) := by
  have hvalues : readParams (updateColumns.map fun a =>
        (a.1, param (updateParams (mutator e) id) a.2)) =
      some ((updateColumns.map Prod.fst).map fun c => (c, cell (mutator e) c)) := by
    rw [updateColumns_params]
    exact readParams_param fun c _ => (admits_cell_iff _).mpr hnul c (mem_kColumns c)
  rw [update, h]
  dsimp only
  rw [hvalues]
  rfl

section

variable {before after : List Exam}

theorem hasId_split (hid : e.id = id) (hothers : ∀ other ∈ before ++ after, other.id ≠ e.id) :
    hasId id (cell e) = true ∧
      ∀ row ∈ before.map cell ++ after.map cell, hasId id row = false := by
  refine ⟨by rw [hasId_cell, decide_eq_true hid], fun row hrow => ?_⟩
  rw [← List.map_append] at hrow
  obtain ⟨other, hother, rfl⟩ := List.mem_map.mp hrow
  rw [hasId_cell, decide_eq_false (hid ▸ hothers other hother)]

theorem isSome_update_iff (hsplit : s.exams = before ++ e :: after) (hid : e.id = id)
    (hnul : NoNul (mutator e)) :
    (s.table.update? (hasId id) fun row =>
      assign row ((updateColumns.map Prod.fst).map fun c => (c, cell (mutator e) c))).isSome = true ↔
      ∀ other ∈ before ++ after, other.token ≠ (mutator e).token := by
  have hothers := s.others_of_split hsplit
  obtain ⟨hp, hrest⟩ := hasId_split hid hothers
  have hrows : s.table.rows = before.map cell ++ cell e :: after.map cell := by
    rw [rows_eq, ← List.map_cons, ← List.map_append]
    exact congrArg _ hsplit
  have hold : kTableExams.Admits (cell e) :=
    s.table.valid.admits _ (hrows ▸ by simp)
  have hnew : NoNul (rewriteRow (mutator e) e) := by
    intro c hc
    rw [cell_rewriteRow]
    split
    · exact hnul c hc
    · exact (admits_cell_iff e).mp hold c hc
  rw [Relation.isSome_update?_iff hrows hp hrest, assign_updateColumns, ← List.map_append,
    unique_iff, and_iff_right ((admits_cell_iff _).mpr hnew)]
  exact forall₂_congr fun other hother => and_iff_right (hothers other hother)

end

theorem update_of_getById_eq_none (h : s.getById id = none) : s.update id mutator = (false, s) := by
  rw [update, h]

theorem update_of_free {before after : List Exam} (hsplit : s.exams = before ++ e :: after)
    (hid : e.id = id) (h : s.getById id = some e) (hnul : NoNul (mutator e))
    (hfree : ∀ other ∈ before ++ after, other.token ≠ (mutator e).token) :
    ∃ s', s.update id mutator = (true, s') ∧
      s'.exams = before ++ rewriteRow (mutator e) e :: after ∧ s'.sequence = s.sequence := by
  obtain ⟨table, htable, hexec⟩ := s.exec_of_isSome ((s.isSome_update_iff hsplit hid hnul).mpr hfree)
  obtain ⟨hp, hrest⟩ := hasId_split hid (s.others_of_split hsplit)
  have hrows : s.table.rows = before.map cell ++ cell e :: after.map cell := by
    rw [rows_eq, ← List.map_cons, ← List.map_append]
    exact congrArg _ hsplit
  refine ⟨{ s with table }, (s.update_eq_exec h hnul).trans hexec, exams_eq_of_rows ?_, rfl⟩
  rw [Relation.rows_of_update? hrows hp hrest htable, assign_updateColumns, List.map_append,
    List.map_cons]

theorem update_of_taken {before after : List Exam} (hsplit : s.exams = before ++ e :: after)
    (hid : e.id = id) (h : s.getById id = some e) (hnul : NoNul (mutator e))
    (htaken : ¬ ∀ other ∈ before ++ after, other.token ≠ (mutator e).token) :
    s.update id mutator = (false, s) := by
  rw [s.update_eq_exec h hnul]
  exact s.exec_of_not_isSome fun hsome =>
    htaken ((s.isSome_update_iff hsplit hid hnul).mp hsome)

/-! ### Deletions -/

theorem remove_eq : (s.remove id).1 = true ∧ (s.remove id).2.sequence = s.sequence ∧
    (s.remove id).2.exams = s.exams.filter fun e => e.id ≠ id := by
  refine ⟨rfl, rfl, exams_eq_of_rows ?_⟩
  have hrows : (s.table.delete (hasId id)).rows = s.table.rows.filter fun row => !hasId id row := rfl
  have hfilter : ((fun row => !hasId id row) ∘ cell) = fun e : Exam => decide (e.id ≠ id) := by
    funext e
    rw [Function.comp_apply, hasId_cell, decide_not]
  rw [remove, exec, hrows, rows_eq, List.filter_map, hfilter]
  rfl

end PostgresStore

end ExamVan.Store

/-!
## No column is dropped or swapped

What is added or updated is read back as it was given, and no other row changes. The constraints of
the table refuse a second row with the id or the token of another, and then nothing changes.
-/

namespace ExamVan.Store.PostgresStore

open ByteString Models Postgres

/-- `s'` has `e` under its id, and every other row as `s` has it. -/
def Holds (s s' : PostgresStore) (e : Exam) : Prop :=
  s'.getById e.id = some e ∧ ∀ id, id ≠ e.id → s'.getById id = s.getById id

/-- A statement that leaves `e` behind, unless it is refused. -/
def Writes (s : PostgresStore) (r : Bool × PostgresStore) (e : Exam) (refused : Prop) : Prop :=
  (r.1 = true ↔ ¬ refused) ∧ (r.1 = true → Holds s r.2 e) ∧ (r.1 = false → r.2 = s)

variable {s s' : PostgresStore} {e : Exam}

theorem writes_of_refused {refused : Prop} (h : refused) : Writes s (false, s) e refused :=
  ⟨by simp [h], nofun, fun _ => rfl⟩

theorem writes_of_holds {refused : Prop} (h : ¬ refused) (hholds : Holds s s' e) :
    Writes s (true, s') e refused :=
  ⟨by simp [h], fun _ => hholds, nofun⟩

/-- Only the exam in the middle is another one. -/
theorem holds_of_middle {before after middle : List Exam}
    (hexams : s.exams = before ++ middle ++ after) (hexams' : s'.exams = before ++ e :: after)
    (hmiddle : ∀ other ∈ middle, other.id = e.id)
    (hothers : ∀ other ∈ before ++ after, other.id ≠ e.id) : Holds s s' e := by
  have hnone : before.find? (fun other => other.id = e.id) = none := by
    simpa using fun other h => hothers other (List.mem_append_left _ h)
  refine ⟨?_, fun id hid => ?_⟩
  · rw [getById_eq, hexams', List.find?_append, hnone, Option.none_or,
      List.find?_cons_of_pos (by simp)]
  · have hskip : middle.find? (fun other => other.id = id) = none := by
      simpa using fun other h heq => hid ((hmiddle other h).symm.trans heq).symm
    rw [getById_eq, getById_eq, hexams, hexams', List.find?_append, List.find?_append,
      List.find?_append, hskip, Option.or_none, List.find?_cons_of_neg (by simpa using Ne.symm hid)]

theorem add_writes (s : PostgresStore) (h : NoNul e) :
    Writes s (s.add e) e (∃ other ∈ s.exams, other.id = e.id ∨ other.token = e.token) := by
  by_cases hfree : ∀ other ∈ s.exams, other.id ≠ e.id ∧ other.token ≠ e.token
  · obtain ⟨s', hadd, hexams, -⟩ := s.add_of_free h hfree
    rw [hadd]
    refine writes_of_holds ?_ ?_
    · rintro ⟨other, hother, hid | htoken⟩
      · exact (hfree other hother).1 hid
      · exact (hfree other hother).2 htoken
    · have hids : ∀ other ∈ s.exams ++ [], other.id ≠ e.id := by
        rw [List.append_nil]
        exact fun other hother => (hfree other hother).1
      have hmiddle : ∀ other ∈ ([] : List Exam), other.id = e.id := by simp
      exact holds_of_middle (by simp) hexams hmiddle hids
  · rw [s.add_of_taken h hfree]
    refine writes_of_refused ?_
    simpa [or_iff_not_imp_left] using hfree

theorem update_writes {id : Int32} {mutator : Exam → Exam} {old : Exam} (h : s.getById id = some old)
    (hnul : NoNul (mutator old))
    (hkept : (mutator old).id = old.id ∧ (mutator old).createdBy = old.createdBy ∧
      (mutator old).createdAt = old.createdAt) :
    Writes s (s.update id mutator) (mutator old)
      (∃ other ∈ s.exams, other.id ≠ id ∧ other.token = (mutator old).token) := by
  obtain ⟨before, after, rfl, hsplit⟩ := s.split_of_getById h
  have hothers := s.others_of_split hsplit
  have hmem : ∀ other, other ∈ s.exams ∧ other.id ≠ old.id ↔ other ∈ before ++ after := by
    intro other
    rw [hsplit, List.perm_middle.mem_iff, List.mem_cons]
    constructor
    · rintro ⟨rfl | hother, hne⟩
      · exact absurd rfl hne
      · exact hother
    · intro hother
      exact ⟨.inr hother, hothers other hother⟩
  by_cases hfree : ∀ other ∈ before ++ after, other.token ≠ (mutator old).token
  · obtain ⟨s', hupdate, hexams, -⟩ := s.update_of_free hsplit rfl h hnul hfree
    rw [hupdate]
    rw [rewriteRow_of_kept hkept] at hexams
    refine writes_of_holds ?_ ?_
    · rintro ⟨other, hother, hne, htoken⟩
      exact hfree other ((hmem other).mp ⟨hother, hne⟩) htoken
    · have hexams₀ : s.exams = before ++ [old] ++ after := by simpa using hsplit
      have hmiddle : ∀ other ∈ [old], other.id = (mutator old).id := by simpa using hkept.1.symm
      have hids : ∀ other ∈ before ++ after, other.id ≠ (mutator old).id := by
        rw [hkept.1]
        exact hothers
      exact holds_of_middle hexams₀ hexams hmiddle hids
  · rw [s.update_of_taken hsplit rfl h hnul hfree]
    refine writes_of_refused ?_
    obtain ⟨other, hother, htoken⟩ : ∃ other ∈ before ++ after, other.token = (mutator old).token := by
      simpa using hfree
    obtain ⟨hstored, hne⟩ := (hmem other).mpr hother
    exact ⟨other, hstored, hne, htoken⟩

def empty (sequence : Option Int) : PostgresStore := ⟨Sql.Relation.empty, sequence⟩

end ExamVan.Store.PostgresStore
