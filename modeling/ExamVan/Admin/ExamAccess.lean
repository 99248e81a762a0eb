import ExamVan.Admin.ExamHandlers

/-!
# The exams that the handlers touch

A handler that turns the id into a number performs operations on that exam only. A handler that
passes the text on touches the exam whose number PostgreSQL reads from it. The export looks at all
exams to find those of the caller, but what it does depends on the one that it exports.
-/

namespace ExamVan.Admin

open ByteString Queue Models

section

variable {int4in : Bytes → Option Int32} {n : Int32}

@[simp]
theorem about_getById : (Op.getById n).About int4in n := fun _ hm => hm

@[simp]
theorem about_update {f : Exam → Exam} : (Op.update n f).About int4in n := fun _ hm => hm

@[simp]
theorem about_remove : (Op.remove n).About int4in n := fun _ hm => hm

@[simp]
theorem about_upload {path data : Bytes} : (Op.upload n path data).About int4in n := fun _ hm => hm

@[simp]
theorem about_claimToken {t : Bytes} : (Op.claimToken t).About int4in n := fun _ hm => hm.elim

@[simp]
theorem about_claimTokenIfAbsent {t : Bytes} {id : Int32} :
    (Op.claimTokenIfAbsent t id).About int4in n := fun _ hm => hm.elim

@[simp]
theorem about_unclaimToken {t : Bytes} : (Op.unclaimToken t).About int4in n := fun _ hm => hm.elim

@[simp]
theorem about_acquire : Op.acquire.About int4in n := fun _ hm => hm.elim

@[simp]
theorem about_otherQuery {s : OtherStatement} {params : List Bytes} :
    (Op.otherQuery s params).About int4in n := fun _ hm => hm.elim

theorem about_examQuery {s : ExamStatement} {idText : Bytes} {params : List Bytes}
    (h : ∀ m, int4in idText = some m → m = n) : (Op.examQuery s idText params).About int4in n := h

theorem all_withExamId {P : Op → Prop} {req : Http.Request} {k : Bytes → Int32 → HandlerProg}
    (hid : stoi (getExamId req) = some n) (h : ∀ idStr, (k idStr n).All P) :
    (withExamId req k).All P := by
  unfold withExamId
  simp only [hid]
  split
  · trivial
  · exact h _

/-! ### `update_exam` -/

theorem all_editToken (env : HandlerEnv) (idStr raw : Bytes) :
    (editToken env idStr n raw).All (Op.About int4in n) := by
  unfold editToken
  split
  · trivial
  split
  · trivial
  · simp only [Prog.op_bind, Prog.all_call, Prog.all_ite, about_claimTokenIfAbsent, true_and]
    intro claimed
    refine ⟨fun _ => trivial, fun _ => ⟨about_update, fun old => ?_⟩⟩
    cases old <;> simp

theorem all_setTokenMode (idStr raw : Bytes) (resetInterval : Option Int32) :
    (setTokenMode idStr n raw resetInterval).All (Op.About int4in n) := by
  dsimp only [setTokenMode]
  split
  · trivial
  split
  · trivial
  · refine .op_bind about_update fun old => ?_
    cases old <;> trivial

theorem all_claimDrawn (env : HandlerEnv) (tries draw : Nat) :
    (claimDrawn env tries draw).All (Op.About int4in n) := by
  induction tries generalizing draw with
  | zero => trivial
  | succ tries ih =>
      unfold claimDrawn
      simp [ih]

theorem all_regenerateToken (env : HandlerEnv) (idStr : Bytes) :
    (regenerateToken env idStr n).All (Op.About int4in n) := by
  refine (all_claimDrawn env 5 0).bind fun drawn => ?_
  cases drawn with
  | none => trivial
  | some token =>
      refine .op_bind about_update fun old => ?_
      cases old <;> simp

theorem all_changeExam (env : HandlerEnv) (idStr : Bytes) (change : Change) :
    (changeExam env idStr n change).All (Op.About int4in n) := by
  refine .op_bind about_update fun old => ?_
  cases old <;> trivial

theorem all_editExam (env : HandlerEnv) (idStr : Bytes) (form : EditForm) :
    (editExam env idStr n form).All (Op.About int4in n) := by
  refine .op_bind about_update fun old => ?_
  cases old <;> simp

theorem all_updateExam (env : HandlerEnv) {req : Http.Request}
    (hid : stoi (getExamId req) = some n) : (updateExam env req).All (Op.About int4in n) := by
  refine all_withExamId hid fun idStr => ?_
  simp only [Prog.all_ite, all_editToken, all_setTokenMode, all_regenerateToken, all_changeExam,
    implies_true, true_and]
  intros
  refine ⟨fun _ => ?_, fun _ => trivial⟩
  split
  · trivial
  · exact all_editExam env idStr _

/-! ### The other handlers by number -/

theorem all_deleteExam (env : HandlerEnv) {req : Http.Request}
    (hid : stoi (getExamId req) = some n) : (deleteExam env req).All (Op.About int4in n) := by
  refine all_withExamId hid fun idStr => .op_bind about_getById fun e => ?_
  cases e <;> simp

section

variable (hint : int4in (intText n.toInt) = some n)

include hint

theorem about_examQuery_intText {s : ExamStatement} {params : List Bytes} :
    (Op.examQuery s (intText n.toInt) params).About int4in n := by
  intro m hm
  exact (Option.some.inj (hint.symm.trans hm)).symm

theorem all_queryPengawas (s : ExamStatement) :
    (queryPengawas s n).All (Op.About int4in n) := by
  simp [queryPengawas, about_examQuery_intText hint]

theorem all_getExamQuestions (env : HandlerEnv) {req : Http.Request}
    (hid : stoi (getExamId req) = some n) :
    (getExamQuestions env req).All (Op.About int4in n) := by
  refine all_withExamId hid fun idStr => .op_bind about_getById fun e => ?_
  cases e with
  | none => trivial
  | some e =>
      exact (all_queryPengawas hint _).bind fun _ => (all_queryPengawas hint _).bind fun _ => trivial

theorem all_insertPengawas (ids : List Int32) :
    (insertPengawas n ids).All (Op.About int4in n) := by
  induction ids with
  | nil => trivial
  | cons user rest ih =>
      refine .op_bind (about_examQuery_intText hint) fun rows => ?_
      cases rows with
      | none => trivial
      | some => exact ih

theorem all_savePengawas? (pengawas : Option (List Int32)) :
    (savePengawas? n pengawas).All (Op.About int4in n) := by
  cases pengawas with
  | none => trivial
  | some ids =>
      simp only [savePengawas?, savePengawas, Prog.op_bind, Prog.all_call, Prog.all_ite,
        about_acquire, true_and]
      refine fun reached => ⟨fun _ => trivial, fun _ => Prog.All.bind ?_ fun ok => ?_⟩
      · simp [replacePengawas, about_examQuery_intText hint, all_insertPengawas hint]
      · simp

theorem all_saveExamQuestions
    (read : Bytes → Except Http.Response (QuestionsForm × Option (List Int32)))
    (env : HandlerEnv) {req : Http.Request} (hid : stoi (getExamId req) = some n) :
    (saveExamQuestions read env req).All (Op.About int4in n) := by
  refine all_withExamId hid fun idStr => .op_bind about_getById fun e => ?_
  cases e with
  | none => trivial
  | some e =>
      dsimp only
      split
      · trivial
      · simp only [Prog.op_bind, Prog.all_call, Prog.all_ite, about_update, true_and]
        exact fun old => ⟨fun _ => trivial,
          fun _ => (all_savePengawas? hint _).bind fun _ => trivial⟩

omit hint in
theorem all_validUser (role : Bytes) (id uid : Int32) :
    (validUser role id uid).All (Op.About int4in n) := by
  refine .op_bind about_otherQuery fun rows => ?_
  dsimp only
  split <;> simp

omit hint in
theorem all_firstInvalid (uid : Int32) (ids : List Int32) :
    (firstInvalid uid ids).All (Op.About int4in n) := by
  induction ids with
  | nil => trivial
  | cons id rest ih =>
      refine (all_validUser _ id uid).bind fun valid => ?_
      simp [ih]

omit hint in
theorem all_rollback (outcome : Delegated) : (rollback outcome).All (Op.About int4in n) := by
  simp [rollback]

theorem all_delegatePengawas (uid : Int32) (pengawas : Option (List Int32)) :
    (delegatePengawas n uid pengawas).All (Op.About int4in n) := by
  cases pengawas with
  | none => simp [delegatePengawas]
  | some ids =>
      refine (all_firstInvalid uid ids).bind fun invalid => ?_
      cases invalid with
      | some => exact all_rollback _
      | none =>
          simp only [Prog.op_bind, Prog.all_call, Prog.all_ite, about_examQuery_intText hint,
            all_rollback, true_and, implies_true]
          refine fun _ _ => (all_insertPengawas hint ids).bind fun ok => ?_
          simp [all_rollback]

theorem all_delegateTransaction (uid : Int32) (newOwner : Option Int32)
    (pengawas : Option (List Int32)) :
    (delegateTransaction n uid newOwner pengawas).All (Op.About int4in n) := by
  have hguru : (validGuru uid newOwner).All (Op.About int4in n) := by
    cases newOwner with
    | none => trivial
    | some owner => exact all_validUser _ owner uid
  have hwrite : (writeOwner n newOwner).All (Op.About int4in n) := by
    cases newOwner <;> exact ⟨about_examQuery_intText hint, fun _ => trivial⟩
  simp only [delegateTransaction, Prog.op_bind, Prog.all_call, Prog.all_ite, about_acquire, true_and]
  refine fun _ => ⟨fun _ => trivial, fun _ => hguru.bind fun ok => ?_⟩
  simp only [Prog.all_call, Prog.all_ite, about_otherQuery, true_and]
  refine ⟨fun _ => trivial, fun _ _ => ⟨fun _ => trivial, fun _ => hwrite.bind fun updated => ?_⟩⟩
  simp [all_rollback, all_delegatePengawas hint]

omit hint in
theorem all_storeOwner (idStr : Bytes) (newOwner : Option Int32) :
    (storeOwner idStr n newOwner).All (Op.About int4in n) := by
  cases newOwner <;> simp [storeOwner]

theorem all_delegateExam (env : HandlerEnv) {req : Http.Request}
    (hid : stoi (getExamId req) = some n) : (delegateExam env req).All (Op.About int4in n) := by
  refine all_withExamId hid fun idStr => .op_bind about_getById fun e => ?_
  cases e with
  | none => trivial
  | some e =>
      dsimp only
      split
      · trivial
      · refine (all_delegateTransaction hint _ _ _).bind fun outcome => ?_
        cases outcome <;> simp [all_storeOwner]

theorem all_delegateData (env : HandlerEnv) {req : Http.Request}
    (hid : stoi (getExamId req) = some n) : (delegateData env req).All (Op.About int4in n) := by
  have husername : ∀ user, (queryUsername user).All (Op.About int4in n) := by
    intro user
    cases user <;> simp [queryUsername]
  refine all_withExamId hid fun idStr => .op_bind about_getById fun e => ?_
  cases e with
  | none => trivial
  | some e =>
      simp only [Prog.op_bind, Prog.all_call, Prog.all_ite, about_acquire, true_and]
      refine fun _ => ⟨fun _ => trivial, fun _ => ⟨about_otherQuery, fun rows => ?_⟩⟩
      split
      · trivial
      · refine .op_bind about_otherQuery fun _ => (husername _).bind fun _ => ?_
        simp [about_examQuery_intText hint]

end

/-! ### The export -/

theorem exportFilter_eq {allowed : List Int32} (hne : n ≠ 0) :
    exportFilter false allowed n = if 0 < n ∧ n ∈ allowed then .one n else .nothing := by
  by_cases hpos : 0 < n
  · have hnot : ¬ n < 0 := Int32.not_lt.mpr (Int32.le_of_lt hpos)
    by_cases hmem : n ∈ allowed <;> simp [exportFilter, hpos, hmem, hnot]
  · have hlt : n < 0 := by
      rcases Int32.lt_or_lt_of_ne hne with h | h
      · exact h
      · exact absurd h hpos
    simp [exportFilter, hpos, hlt]

theorem mem_allowedIds {actorId : Int32} {exams : List Exam} :
    n ∈ allowedIds actorId exams ↔
      ∃ e ∈ exams.filter fun e => e.id = n,
        e.createdBy = actorId ∨ e.delegatedTo = some actorId := by
  simp only [allowedIds, List.mem_map, List.mem_filter, Bool.or_eq_true, decide_eq_true_eq]
  constructor
  · rintro ⟨e, ⟨he, howned⟩, hid⟩
    exact ⟨e, ⟨he, hid⟩, howned⟩
  · rintro ⟨e, ⟨he, hid⟩, howned⟩
    exact ⟨e, ⟨he, howned⟩, hid⟩

theorem all_exportRows {filter : ExportFilter} (h : filter = .one n ∨ filter = .nothing) :
    (exportRows filter).All (Op.About int4in n) := by
  have hquery : (Op.exportSubmissions filter).About int4in n := by
    rcases h with rfl | rfl
    · exact fun _ hm => hm
    · exact fun _ hm => hm.elim
  simp [exportRows, hquery]

theorem exportXlsx_eq (env : HandlerEnv) {req : Http.Request}
    (hsuper : req.headers.find? (str "X-Internal-Admin-Super") = some (str "0"))
    (hid : stoi (getExamId req) = some n) :
    exportXlsx env req = .call .listAll fun exams => exportRows (exportFilter false
      (allowedIds (((req.headers.find? (str "X-Internal-Admin-Id")).bind stoi).getD 0) exams) n) := by
  have hnot : (some (str "0") = some (str "1")) = False := by decide
  simp [exportXlsx, hsuper, hnot, exportExamId, hid]

theorem onlyExam_exportXlsx (env : HandlerEnv) {req : Http.Request}
    (hsuper : req.headers.find? (str "X-Internal-Admin-Super") = some (str "0"))
    (hid : stoi (getExamId req) = some n) (hne : n ≠ 0) :
    OnlyExam int4in n (exportXlsx env req) := by
  have hfilter : ∀ allowed : List Int32,
      exportFilter false allowed n = .one n ∨ exportFilter false allowed n = .nothing := by
    intro allowed
    rw [exportFilter_eq hne]
    split <;> simp
  rw [exportXlsx_eq env hsuper hid]
  refine .of_lockstep (.call _ _ _ fun exams exams' hexams => ?_) ?_
  · -- the lists agree on exam `n`, so it is exported for both or for neither
    have heq : ∀ actorId, exportFilter false (allowedIds actorId exams) n =
        exportFilter false (allowedIds actorId exams') n := by
      intro actorId
      have hexams : exams.filter (fun e => e.id = n) = exams'.filter fun e => e.id = n := hexams
      simp only [exportFilter_eq hne, mem_allowedIds, hexams]
    rw [heq]
    exact Prog.lockstep_self ((all_exportRows (hfilter _)).mono fun _ => eq_of_answersAgree)
  · refine ⟨fun _ hm => hm.elim, fun exams => ?_⟩
    exact (all_exportRows (hfilter _)).mono fun _ habout m hm =>
      habout m (Op.concerns_of_writes int4in hm)

/-! ### Worlds that differ in other exams -/

/-- A world where every statement works. Those on exam `n` find nothing, the others find `rows`. -/
def exposing (int4in : Bytes → Option Int32) (n : Int32) (exams : List Exam) (rows : Rows) :
    Prog.World Op Ans
  | _, .getById _ | _, .update _ _ => none
  | _, .listAll => exams
  | _, .acquire => true
  | _, .remove _ | _, .claimToken _ | _, .claimTokenIfAbsent _ _ | _, .upload _ _ _ => false
  | _, .unclaimToken _ => ()
  | _, .examQuery _ idText _ =>
      if int4in idText = none ∨ int4in idText = some n then some [] else some rows
  | _, .otherQuery _ _ | _, .exportSubmissions _ => some []

@[simp]
theorem exposing_acquire {exams : List Exam} {rows : Rows} (past : List Op) :
    exposing int4in n exams rows past .acquire = true := rfl

theorem answersAgree_exposing {exams exams' : List Exam} {rows rows' : Rows}
    (hexams : (exams.filter fun e => e.id = n) = exams'.filter fun e => e.id = n)
    (past : List Op) (op : Op) :
    AnswersAgree int4in n op (exposing int4in n exams rows past op)
      (exposing int4in n exams' rows' past op) := by
  cases op
  case listAll => exact hexams
  case examQuery s idText params =>
    intro habout
    have h : int4in idText = none ∨ int4in idText = some n := by
      cases hread : int4in idText with
      | none => exact .inl rfl
      | some m => exact .inr (by rw [habout m hread])
    simp [exposing, h]
  all_goals exact fun _ => rfl

/-- The export of exam 0 is that of all exams of the caller. -/
theorem not_onlyExam_exportXlsx (env : HandlerEnv) {req : Http.Request}
    (hsuper : req.headers.find? (str "X-Internal-Admin-Super") = some (str "0"))
    (hid : stoi (getExamId req) = some 0) : ¬ OnlyExam int4in 0 (exportXlsx env req) := by
  intro h
  let actorId := ((req.headers.find? (str "X-Internal-Admin-Id")).bind stoi).getD 0
  let other : Exam := { id := 1, createdBy := actorId }
  have hrun := h.reads (exposing int4in 0 [] []) (exposing int4in 0 [other] [])
    (answersAgree_exposing (by simp [other]))
  rw [exportXlsx_eq env hsuper hid] at hrun
  simp [Prog.run, exposing, exportRows, exportFilter, allowedIds, other, actorId] at hrun

/-! ### The handlers that pass the text on -/

section

variable (env : HandlerEnv) {req : Http.Request} (hne : examIdParam req ≠ [])

include hne

section

variable (htext : ∀ m, int4in (examIdParam req) = some m → m = n)

include htext

theorem all_pengawasSubmissions : (pengawasSubmissions env req).All (Op.About int4in n) := by
  have hquery : ∀ s params, (Op.examQuery s (examIdParam req) params).About int4in n :=
    fun _ _ => about_examQuery htext
  simp only [pengawasSubmissions, hne, if_false, Prog.op_bind, Prog.all_call, Prog.all_ite,
    about_acquire, hquery, true_and]
  refine fun _ => ⟨fun _ => trivial, fun _ _ => fun rows => ?_⟩
  cases rows <;> trivial

theorem all_pendingApprovals : (pendingApprovals env req).All (Op.About int4in n) := by
  have hquery : ∀ s params, (Op.examQuery s (examIdParam req) params).About int4in n :=
    fun _ _ => about_examQuery htext
  simp only [pendingApprovals, hne, if_false, Prog.op_bind, Prog.all_call, Prog.all_ite,
    about_acquire, hquery, true_and]
  refine fun _ => ⟨fun _ => trivial, fun _ rows => ?_⟩
  cases rows <;> trivial

theorem all_examAuditLogs : (examAuditLogs env req).All (Op.About int4in n) := by
  have hquery : ∀ s params, (Op.examQuery s (examIdParam req) params).About int4in n :=
    fun _ _ => about_examQuery htext
  simp only [examAuditLogs, hne, if_false, Prog.op_bind, Prog.all_call, Prog.all_ite,
    about_acquire, hquery, true_and]
  refine fun _ => ⟨fun _ => trivial, fun _ rows => ?_⟩
  cases rows <;> trivial

theorem all_getAutoApprove : (getAutoApprove env req).All (Op.About int4in n) := by
  have hquery : ∀ s params, (Op.examQuery s (examIdParam req) params).About int4in n :=
    fun _ _ => about_examQuery htext
  simp [getAutoApprove, hne, hquery]

omit hne in
theorem all_execute (s : ExamStatement) (params : List Bytes) :
    (execute s (examIdParam req) params).All (Op.About int4in n) := by
  simp [execute, about_examQuery htext]

omit hne in
theorem all_writeAuditLog (who : Http.AuditIdentity) (action detail : Bytes) :
    (writeAuditLog (examIdParam req) who action detail).All (Op.About int4in n) := by
  simp [writeAuditLog, about_examQuery htext]

theorem all_setAutoApprove : (setAutoApprove env req).All (Op.About int4in n) := by
  simp only [setAutoApprove, hne, if_false]
  refine (all_execute htext _ _).bind fun succeeded => ?_
  rw [Prog.all_ite]
  exact ⟨fun _ => (all_writeAuditLog htext _ _ _).bind fun _ => trivial, fun _ => trivial⟩

end

omit hne in
theorem all_setApproval (h : approvalStatus req.body ≠ none →
    ∀ m, int4in (examIdParam req) = some m → m = n) :
    (setApproval env req).All (Op.About int4in n) := by
  -- a status that is refused reaches no statement
  dsimp only [setApproval]
  split
  · trivial
  · cases hstatus : approvalStatus req.body with
    | none => trivial
    | some status =>
        have htext := h (by simp [hstatus])
        refine (all_execute htext _ _).bind fun succeeded => ?_
        rw [Prog.all_ite]
        exact ⟨fun _ => (all_writeAuditLog htext _ _ _).bind fun _ => trivial, fun _ => trivial⟩

/-! ### When PostgreSQL reads another number -/

section

variable {w : Prog.World Op Ans} {rows : Rows} (hacquire : ∀ past, w past .acquire = true)
  (hquery : ∀ past s params, w past (.examQuery s (examIdParam req) params) = some rows)

include hne hacquire hquery

theorem run_pengawasSubmissions :
    ((pengawasSubmissions env req).run w []).2 = .page (some rows) rows
      (pageOf (Api.parseForm req.query)) (limitOf (Api.parseForm req.query) (str "per_page") 20 200) := by
  simp only [pengawasSubmissions, hne, if_false, Prog.op_bind, Prog.run, hacquire, Bool.not_true,
    Bool.false_eq_true]
  rw [hquery, hquery]
  rfl

theorem run_pendingApprovals :
    ((pendingApprovals env req).run w []).2 = .page none rows (pageOf (Api.parseForm req.query))
      (limitOf (Api.parseForm req.query) (str "limit") 100 500) := by
  simp only [pendingApprovals, hne, if_false, Prog.op_bind, Prog.run, hacquire, Bool.not_true,
    Bool.false_eq_true]
  rw [hquery]
  rfl

theorem run_examAuditLogs :
    ((examAuditLogs env req).run w []).2 =
      .page none rows 1 (auditLimit (Api.parseForm req.query)) := by
  simp only [examAuditLogs, hne, if_false, Prog.op_bind, Prog.run, hacquire, Bool.not_true,
    Bool.false_eq_true]
  rw [hquery]
  rfl

theorem run_getAutoApprove :
    ((getAutoApprove env req).run w []).2 = .response
      (enabledReply ((rows.head?.bind List.head?).getD [] = str "t") []) := by
  simp only [getAutoApprove, hne, if_false, Prog.op_bind, Prog.run, hacquire, Bool.not_true,
    Bool.false_eq_true]
  rw [hquery]
  rfl

omit hquery in
theorem mem_run_setAutoApprove :
    ∃ params, Op.examQuery .setAutoApprove (examIdParam req) params ∈
      ((setAutoApprove env req).run w []).1 := by
  simp only [setAutoApprove, hne, if_false, execute, Prog.op_bind, Prog.call_bind, Prog.run,
    hacquire, Bool.not_true, Bool.false_eq_true]
  exact ⟨_, Prog.subset_run _ _ _ (List.mem_append_right _ (List.mem_singleton_self _))⟩

omit hquery in
theorem mem_run_setApproval (hmac : getParam req.params (str "mac_address") ≠ [])
    (hstatus : approvalStatus req.body ≠ none) :
    ∃ params, Op.examQuery .setApproval (examIdParam req) params ∈
      ((setApproval env req).run w []).1 := by
  obtain ⟨status, hsome⟩ := Option.ne_none_iff_exists'.mp hstatus
  simp only [setApproval, hne, hmac, or_self, if_false, hsome, execute, Prog.op_bind,
    Prog.call_bind, Prog.run, hacquire, Bool.not_true, Bool.false_eq_true]
  exact ⟨_, Prog.subset_run _ _ _ (List.mem_append_right _ (List.mem_singleton_self _))⟩

end

section

variable {m : Int32} (htext : int4in (examIdParam req) = some m) (hother : m ≠ n)

include htext hother

omit hne in
theorem exposing_examQuery {exams : List Exam} {rows : Rows} (past : List Op) (s : ExamStatement)
    (params : List Bytes) :
    exposing int4in n exams rows past (.examQuery s (examIdParam req) params) = some rows := by
  simp [exposing, htext, hother]

omit htext hother hne in
/-- A program whose answer differs with the rows of other exams. -/
theorem not_onlyExam_of_run {p : HandlerProg}
    (h : (p.run (exposing int4in n [] []) []).2 ≠ (p.run (exposing int4in n [] [[str "t"]]) []).2) :
    ¬ OnlyExam int4in n p := by
  intro honly
  exact h (congrArg Prod.snd (honly.reads _ _ (answersAgree_exposing rfl)))

omit hne in
theorem not_onlyExam_of_write {p : HandlerProg} {w : Prog.World Op Ans} {s : ExamStatement}
    {params : List Bytes} (hwrite : s.isWrite = true)
    (h : Op.examQuery s (examIdParam req) params ∈ (p.run w []).1) : ¬ OnlyExam int4in n p := by
  intro honly
  exact hother (honly.writes w _ h m ⟨hwrite, htext⟩)

theorem not_onlyExam_pengawasSubmissions : ¬ OnlyExam int4in n (pengawasSubmissions env req) := by
  refine not_onlyExam_of_run ?_
  rw [run_pengawasSubmissions env hne exposing_acquire (exposing_examQuery htext hother),
    run_pengawasSubmissions env hne exposing_acquire (exposing_examQuery htext hother)]
  simp

theorem not_onlyExam_pendingApprovals : ¬ OnlyExam int4in n (pendingApprovals env req) := by
  refine not_onlyExam_of_run ?_
  rw [run_pendingApprovals env hne exposing_acquire (exposing_examQuery htext hother),
    run_pendingApprovals env hne exposing_acquire (exposing_examQuery htext hother)]
  simp

theorem not_onlyExam_examAuditLogs : ¬ OnlyExam int4in n (examAuditLogs env req) := by
  refine not_onlyExam_of_run ?_
  rw [run_examAuditLogs env hne exposing_acquire (exposing_examQuery htext hother),
    run_examAuditLogs env hne exposing_acquire (exposing_examQuery htext hother)]
  simp

theorem not_onlyExam_getAutoApprove : ¬ OnlyExam int4in n (getAutoApprove env req) := by
  refine not_onlyExam_of_run ?_
  rw [run_getAutoApprove env hne exposing_acquire (exposing_examQuery htext hother),
    run_getAutoApprove env hne exposing_acquire (exposing_examQuery htext hother)]
  decide

theorem not_onlyExam_setAutoApprove : ¬ OnlyExam int4in n (setAutoApprove env req) := by
  have hacquire : ∀ past, exposing int4in n [] [] past .acquire = true := exposing_acquire
  obtain ⟨params, hmem⟩ := mem_run_setAutoApprove env hne hacquire
  exact not_onlyExam_of_write htext hother rfl hmem

theorem not_onlyExam_setApproval (hmac : getParam req.params (str "mac_address") ≠ [])
    (hstatus : approvalStatus req.body ≠ none) : ¬ OnlyExam int4in n (setApproval env req) := by
  have hacquire : ∀ past, exposing int4in n [] [] past .acquire = true := exposing_acquire
  obtain ⟨params, hmem⟩ := mem_run_setApproval env hne hacquire hmac hstatus
  exact not_onlyExam_of_write htext hother rfl hmem

end

end

end

end ExamVan.Admin
