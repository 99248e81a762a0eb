import ExamVan.Admin.ExamAccess

/-!
# The scope of an exam

The guard's scope and the handler take the exam from the request each in its own way. They name the
same exam unless the path is the pattern's own text, which matches without a parameter, or the
database reads another number from the id than the guard.
-/

namespace ExamVan.Admin

open ByteString Queue Models

/-! ### Routes -/

/-- The handlers behind the scopes of an exam. -/
inductive ExamHandler
  | updateExam
  | deleteExam
  | delegateData
  | delegateExam
  | getExamQuestions
  | saveExamQuestions
  | exportXlsx
  | pengawasSubmissions
  | pendingApprovals
  | setApproval
  | getAutoApprove
  | setAutoApprove
  | examAuditLogs
  deriving DecidableEq

section

variable (read : Bytes → Except Http.Response (QuestionsForm × Option (List Int32)))

def ExamHandler.run (env : HandlerEnv) (req : Http.Request) : ExamHandler → HandlerProg
  | .updateExam => Admin.updateExam env req
  | .deleteExam => Admin.deleteExam env req
  | .delegateData => Admin.delegateData env req
  | .delegateExam => Admin.delegateExam env req
  | .getExamQuestions => Admin.getExamQuestions env req
  | .saveExamQuestions => Admin.saveExamQuestions read env req
  | .exportXlsx => Admin.exportXlsx env req
  | .pengawasSubmissions => Admin.pengawasSubmissions env req
  | .pendingApprovals => Admin.pendingApprovals env req
  | .setApproval => Admin.setApproval env req
  | .getAutoApprove => Admin.getAutoApprove env req
  | .setAutoApprove => Admin.setAutoApprove env req
  | .examAuditLogs => Admin.examAuditLogs env req

end

/-- The handlers that pass the text of the id on to the database. -/
def ExamHandler.passesText : ExamHandler → Bool
  | .pengawasSubmissions | .pendingApprovals | .setApproval | .getAutoApprove | .setAutoApprove
  | .examAuditLogs => true
  | _ => false

structure ExamRoute where
  method : Bytes
  pattern : Bytes
  handler : ExamHandler
  roleReq : Bytes := []
  scope : Http.Scope := .exam
  deriving DecidableEq

/-- The parameters of a request that the router gives to this route. -/
def ExamRoute.params? (route : ExamRoute) (req : Http.Request) : Option StringMap :=
  if route.method ≠ req.method then none else Http.routerMatch route.pattern req.path

theorem ExamRoute.routerMatch_of_params? {route : ExamRoute} {req : Http.Request}
    {params : StringMap} (h : route.params? req = some params) :
    Http.routerMatch route.pattern req.path = some params := by
  unfold params? at h
  split at h
  · cases h
  · exact h

/-- The routes that `register_full_routes` guards with `exam` or `exam_access`. -/
def examRoutes : List ExamRoute :=
  let exams := str "/admin/api/exams/"
  let pengawas := str "/admin/api/pengawas/exams/:exam_id/"
  let get := str "GET"
  let post := str "POST"
  [{ method := str "PUT", pattern := exams ++ str ":id", handler := .updateExam },
   { method := str "DELETE", pattern := exams ++ str ":id", handler := .deleteExam },
   { method := get, pattern := exams ++ str ":exam_id/delegate-data", handler := .delegateData
     roleReq := Http.kRoleOperator },
   { method := post, pattern := exams ++ str ":exam_id/delegate", handler := .delegateExam
     roleReq := Http.kRoleOperator },
   { method := post, pattern := exams ++ str ":exam_id/toggle", handler := .updateExam },
   { method := post, pattern := exams ++ str ":exam_id/delete", handler := .deleteExam },
   { method := post, pattern := exams ++ str ":exam_id/edit", handler := .updateExam },
   { method := post, pattern := exams ++ str ":exam_id/start", handler := .updateExam },
   { method := post, pattern := exams ++ str ":exam_id/stop", handler := .updateExam },
   { method := post, pattern := exams ++ str ":exam_id/regenerate-token", handler := .updateExam },
   { method := post, pattern := exams ++ str ":exam_id/edit-token", handler := .updateExam },
   { method := post, pattern := exams ++ str ":exam_id/token-mode", handler := .updateExam },
   { method := get, pattern := exams ++ str ":exam_id/questions", handler := .getExamQuestions },
   { method := post, pattern := exams ++ str ":exam_id/questions", handler := .saveExamQuestions },
   { method := get, pattern := exams ++ str ":id/export", handler := .exportXlsx },
   { method := get, pattern := pengawas ++ str "submissions", handler := .pengawasSubmissions
     scope := .examAccess },
   { method := get, pattern := pengawas ++ str "approvals", handler := .pendingApprovals
     scope := .examAccess },
   { method := post, pattern := pengawas ++ str "approvals/:mac_address", handler := .setApproval
     scope := .examAccess },
   { method := get, pattern := pengawas ++ str "auto-approve", handler := .getAutoApprove
     scope := .examAccess },
   { method := post, pattern := pengawas ++ str "auto-approve", handler := .setAutoApprove
     scope := .examAccess },
   { method := get, pattern := pengawas ++ str "audit-logs", handler := .examAuditLogs
     scope := .examAccess }]

/-- Every one of the routes names its exam by exactly one parameter. -/
theorem examRoutes_params : ∀ route ∈ examRoutes,
    let names := (Http.segments route.pattern).map Http.paramName?
    (some (str "exam_id") ∈ names ∧ some (str "id") ∉ names ∨
      some (str "id") ∈ names ∧ some (str "exam_id") ∉ names ∧ route.handler.passesText = false) ∧
    (route.handler = .setApproval → some (str "mac_address") ∈ names) ∧
    (route.scope = .exam ∨ route.scope = .examAccess) := by
  decide

/-! ### Which exam a request names -/

section

variable {route : ExamRoute} {req : Http.Request}

theorem params_of_literal (hmatch : Http.routerMatch route.pattern req.path = some req.params)
    (hpath : route.pattern = Api.urlDecode req.path) : req.params = OrderedMap.empty := by
  rw [Http.routerMatch, if_pos hpath] at hmatch
  exact (Option.some.inj hmatch).symm

theorem find?_params_of_notMem {name : Bytes}
    (hmatch : Http.routerMatch route.pattern req.path = some req.params)
    (hpath : route.pattern ≠ Api.urlDecode req.path)
    (hname : some name ∉ (Http.segments route.pattern).map Http.paramName?) :
    req.params.find? name = none := by
  rw [Http.routerMatch, if_neg hpath] at hmatch
  rw [Http.find?_matchSegments_of_notMem hmatch hname]
  rfl

/-- The guard and the handlers find the same text. -/
theorem exists_examId (hroute : route ∈ examRoutes)
    (hmatch : Http.routerMatch route.pattern req.path = some req.params)
    (hpath : route.pattern ≠ Api.urlDecode req.path) :
    ∃ eid, eid ≠ [] ∧
      (∀ text, req.params.find? (str "exam_id") = some text ∨
        req.params.find? (str "id") = some text → text = eid) ∧
      (req.params.find? (str "exam_id") = some eid ∨ req.params.find? (str "id") = some eid) ∧
      Http.GuardSurroundings.scopeExamId req = eid ∧ getExamId req = eid ∧
      (route.handler.passesText = true → examIdParam req = eid) := by
  obtain ⟨⟨hexam, hid⟩ | ⟨hid, hexam, htext⟩, -, -⟩ := examRoutes_params route hroute
  · obtain ⟨eid, hne, hfind⟩ := Http.find?_routerMatch hmatch hpath hexam
    have hnone := find?_params_of_notMem hmatch hpath hid
    refine ⟨eid, hne, ?_, .inl hfind, ?_, ?_, fun _ => ?_⟩
    · rintro text (h | h)
      · exact Option.some.inj (h.symm.trans hfind)
      · rw [hnone] at h
        cases h
    · simp [Http.GuardSurroundings.scopeExamId, hfind]
    · simp [getExamId, getParam, hnone, hfind]
    · simp [examIdParam, getParam, hfind]
  · obtain ⟨eid, hne, hfind⟩ := Http.find?_routerMatch hmatch hpath hid
    have hnone := find?_params_of_notMem hmatch hpath hexam
    refine ⟨eid, hne, ?_, .inr hfind, ?_, ?_, fun h => ?_⟩
    · rintro text (h | h)
      · rw [hnone] at h
        cases h
      · exact Option.some.inj (h.symm.trans hfind)
    · simp [Http.GuardSurroundings.scopeExamId, hnone, hfind]
    · simp [getExamId, hfind]
    · rw [htext] at h
      cases h

end

/-! ### Complete scopes -/

/-- What the scope promises of a handler that runs: the parameters name an existing exam that the
session may access, and the handler reads and writes that exam and no other. -/
def ScopeHolds (w : Http.GuardSurroundings) (int4in : Bytes → Option Int32)
    (sess : Http.SessionData) (req : Http.Request) (p : HandlerProg) : Prop :=
  ∃ eid examId e,
    (req.params.find? (str "exam_id") = some eid ∨ req.params.find? (str "id") = some eid) ∧
    stoi eid = some examId ∧ w.getById examId = some e ∧ w.MayAccess sess examId e ∧
    OnlyExam int4in examId p

/-- The handler and the guard mean the same exam by the id's text. -/
def ExamHandler.SameExam (int4in : Bytes → Option Int32) (req : Http.Request) (examId : Int32) :
    ExamHandler → Prop
  | .exportXlsx => examId ≠ 0
  | .setApproval => approvalStatus req.body ≠ none →
      ∀ m, int4in (examIdParam req) = some m → m = examId
  | handler => handler.passesText = true → ∀ m, int4in (examIdParam req) = some m → m = examId

section

variable {int4in : Bytes → Option Int32} {n : Int32} {env : HandlerEnv} {req : Http.Request}
  {read : Bytes → Except Http.Response (QuestionsForm × Option (List Int32))}

/-- A handler that passes the text on, by what it touches when PostgreSQL reads `n` from it or
another number. -/
theorem onlyExam_iff_of_text {p : HandlerProg}
    (hall : (∀ m, int4in (examIdParam req) = some m → m = n) → p.All (Op.About int4in n))
    (hnot : ∀ m, int4in (examIdParam req) = some m → m ≠ n → ¬ OnlyExam int4in n p) :
    OnlyExam int4in n p ↔ (true = true → ∀ m, int4in (examIdParam req) = some m → m = n) := by
  constructor
  · intro honly _ m hm
    by_contra hother
    exact hnot m hm hother honly
  · exact fun h => .of_all (hall (h rfl))

/-- A handler touches the exam of its id and no other exactly when it means the same exam by it. -/
theorem onlyExam_run_iff {handler : ExamHandler} (hint : int4in (intText n.toInt) = some n)
    (hid : stoi (getExamId req) = some n)
    (htext : handler.passesText = true → examIdParam req ≠ [])
    (hmac : handler = .setApproval → getParam req.params (str "mac_address") ≠ [])
    (hsuper : req.headers.find? (str "X-Internal-Admin-Super") = some (str "0")) :
    OnlyExam int4in n (handler.run read env req) ↔ handler.SameExam int4in req n := by
  cases handler with
  | updateExam => exact ⟨fun _ h => (by cases h), fun _ => .of_all (all_updateExam env hid)⟩
  | deleteExam => exact ⟨fun _ h => (by cases h), fun _ => .of_all (all_deleteExam env hid)⟩
  | delegateData =>
      exact ⟨fun _ h => (by cases h), fun _ => .of_all (all_delegateData hint env hid)⟩
  | delegateExam =>
      exact ⟨fun _ h => (by cases h), fun _ => .of_all (all_delegateExam hint env hid)⟩
  | getExamQuestions =>
      exact ⟨fun _ h => (by cases h), fun _ => .of_all (all_getExamQuestions hint env hid)⟩
  | saveExamQuestions =>
      exact ⟨fun _ h => (by cases h), fun _ => .of_all (all_saveExamQuestions hint read env hid)⟩
  | exportXlsx =>
      refine ⟨fun honly hzero => ?_, onlyExam_exportXlsx env hsuper hid⟩
      subst hzero
      exact not_onlyExam_exportXlsx env hsuper hid honly
  | pengawasSubmissions =>
      exact onlyExam_iff_of_text (all_pengawasSubmissions env (htext rfl))
        fun m hm hother => not_onlyExam_pengawasSubmissions env (htext rfl) hm hother
  | pendingApprovals =>
      exact onlyExam_iff_of_text (all_pendingApprovals env (htext rfl))
        fun m hm hother => not_onlyExam_pendingApprovals env (htext rfl) hm hother
  | getAutoApprove =>
      exact onlyExam_iff_of_text (all_getAutoApprove env (htext rfl))
        fun m hm hother => not_onlyExam_getAutoApprove env (htext rfl) hm hother
  | setAutoApprove =>
      exact onlyExam_iff_of_text (all_setAutoApprove env (htext rfl))
        fun m hm hother => not_onlyExam_setAutoApprove env (htext rfl) hm hother
  | examAuditLogs =>
      exact onlyExam_iff_of_text (all_examAuditLogs env (htext rfl))
        fun m hm hother => not_onlyExam_examAuditLogs env (htext rfl) hm hother
  | setApproval =>
      refine ⟨fun honly hstatus m hm => ?_, fun h => .of_all (all_setApproval env h)⟩
      by_contra hother
      exact not_onlyExam_setApproval env (htext rfl) hm hother (hmac rfl) hstatus honly

end

def submissionsRoute : ExamRoute where
  method := str "GET"
  pattern := str "/admin/api/pengawas/exams/:exam_id/submissions"
  handler := .pengawasSubmissions
  scope := .examAccess

/-- A request of a teacher for the submissions of an exam, with the id as the path has it. -/
def submissionsRequest (id query : Bytes) (params : StringMap) : Http.Request where
  method := str "GET"
  path := str "/admin/api/pengawas/exams/" ++ id ++ str "/submissions"
  headers := OrderedMap.empty.insertAll [(str "Cookie", str "s")]
  query := query
  params := params

/-- The teacher has created exam 5. -/
def creatorSurroundings : Http.GuardSurroundings :=
  { Http.teacherSurroundings with
    getById := fun id => if id = 5 then some { id := 5, createdBy := 7 } else none }

def noQuestions : Bytes → Except Http.Response (QuestionsForm × Option (List Int32)) :=
  fun _ => .error notFound

end ExamVan.Admin
