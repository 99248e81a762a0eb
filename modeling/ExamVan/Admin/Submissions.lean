import ExamVan.Admin.BulkScope
import ExamVan.Admin.ExportSheet
import ExamVan.Http.Routes
import ExamVan.Lib.Transition

/-!
# The submissions of other schools

Four handlers read or delete rows of `submissions`, each with a test of its own for the rows that a
session may see. Together with the routes before them they keep two promises for every session that
is no superadmin's: what happens to the submissions of exams out of its sight changes none of its
answers, and nothing it asks for changes the submissions of exams that are not its own.
-/

namespace ExamVan.Admin.Submissions

open ByteString Queue Api Http Models

/-! ### Tables -/

/-- A row of `exams`. -/
structure ExamRow where
  id : Int32
  name : Bytes
  createdBy : Option Int32
  delegatedTo : Option Int32

/-- A row of `submissions`, without its id and its exam. A null reads as the empty text. -/
structure Submission where
  studentName : Bytes := []
  examNumber : Bytes := []
  studentClass : Bytes := []
  score : Bytes := []
  startTime : Bytes := []
  macAddress : Bytes := []
  answersJson : Bytes := []
  createdAt : Bytes := []
  identityData : Bytes := []

abbrev Rows := OrderedMap Int Submission

/-- What stays as it is while submissions come and go. -/
structure Tables where
  exams : List ExamRow
  adminUsers : List Http.AdminUser
  /-- `active_store()->list_all()` -/
  stored : List Exam
  /-- the exam that each id of a submission belongs to -/
  examOf : Int → Int32
  /-- a text parameter as an integer -/
  castInt : Bytes → Option Int
  /-- `ILIKE` of a text and a pattern -/
  ilike : Bytes → Bytes → Bool

/-- The pool and the statements of one call. -/
structure Link where
  /-- `DATABASE_URL` -/
  configured : Bool := true
  reached : Bool := true
  /-- `submission_scope_ok` and the `SELECT 1` after it -/
  scopeRead : Bool := true
  probed : Bool := true
  /-- the statement that the handler is for -/
  executed : Bool := true

namespace Tables

variable (t : Tables)

/-- `LEFT JOIN exams e ON e.id=…`. -/
def examRow (examId : Int32) : Option ExamRow := t.exams.find? fun e => e.id = examId

/-- The row of a `WHERE id=$1`. -/
def rowAt (db : Rows) (idText : Bytes) : Option (Int × Submission) :=
  (t.castInt idText).bind fun id => (db.find? id).map (id, ·)

end Tables

/-! ### The list -/

def getParam (form : StringMap) (key : String) : Bytes := (form.find? (str key)).getD []

/-- The text of `ct` in the handlers: the timestamp up to its seconds. -/
def upToSeconds (createdAt : Bytes) : Bytes :=
  if 19 ≤ createdAt.length then createdAt.take 19 else createdAt

def textMember (name : String) (value : Bytes) : Bytes :=
  str ",\"" ++ str name ++ str "\":\"" ++ jsonEscape value ++ str "\""

section

variable (t : Tables) (actor : BulkActor)

/-- The part of `where` that depends on the session. -/
def listed (examId : Int32) : Bool :=
  actor.superAdmin ||
    match t.examRow examId with
    | none => false
    | some e =>
        if actor.isOperator ∧ actor.instansi ≠ [] then
          t.adminUsers.any fun user => user.instansi = actor.instansi && e.createdBy = some user.id
        else e.createdBy = some actor.id || e.delegatedTo = some actor.id

/-- The columns that the list and the detail have in common, as members of an object. -/
def commonJson (entry : Int × Submission) : Bytes :=
  str "\x7b\"id\":" ++ intText entry.1 ++ str ",\"exam_id\":" ++
    intText (t.examOf entry.1).toInt ++
    textMember "exam_name" (((t.examRow (t.examOf entry.1)).map ExamRow.name).getD []) ++
    textMember "student_name" entry.2.studentName ++
    textMember "exam_number" entry.2.examNumber ++
    textMember "student_class" entry.2.studentClass ++
    str ",\"score\":" ++ (if entry.2.score = [] then str "null" else entry.2.score) ++
    textMember "start_time" entry.2.startTime ++
    textMember "mac_address" entry.2.macAddress

def listRowJson (entry : Int × Submission) : Bytes :=
  commonJson t entry ++ textMember "created_at" (upToSeconds entry.2.createdAt) ++ str "\x7d"

def listReply (rows : Bytes) (page perPage total totalPages : Nat) : Response :=
  ⟨200, str "\x7b\"success\":true,\"submissions\":[" ++ rows ++ str "],\"pagination\":\x7b\"page\":" ++
    natText page ++ str ",\"per_page\":" ++ natText perPage ++ str ",\"total\":" ++ natText total ++
    str ",\"total_pages\":" ++ natText totalPages ++ str "\x7d\x7d"⟩

def clampPage (page : Int32) : Nat :=
  if page < 1 then 1 else if 1000000 < page then 1000000 else page.toInt.toNat

def clampPerPage (perPage : Int32) : Nat :=
  if perPage < 1 then 20 else if 200 < perPage then 200 else perPage.toInt.toNat

/-- `where` of the list. -/
def selects (q : StringMap) (entry : Int × Submission) : Bool :=
  let examId := getParam q "exam_id"
  let search := getParam q "search"
  let pattern := str "%" ++ search ++ str "%"
  listed t actor (t.examOf entry.1) &&
    (examId = [] || t.castInt examId = some (t.examOf entry.1).toInt) &&
    (search = [] || t.ilike entry.2.studentName pattern || t.ilike entry.2.examNumber pattern ||
      t.ilike entry.2.studentClass pattern)

def listSubmissions (link : Link) (db : Rows) (req : Http.Request) : Response :=
  let q := parseForm req.query
  let page := clampPage ((stoi (getParam q "page")).getD 1)
  let perPage := clampPerPage ((stoi (getParam q "per_page")).getD 20)
  -- a parameter that is no integer makes the statement fail
  let badExam : Bool := getParam q "exam_id" ≠ [] && (t.castInt (getParam q "exam_id")).isNone
  if !link.reached || !link.executed || badExam then listReply [] page perPage 0 0
  else
    let selected := db.entries.filter (selects t actor q)
    let shown := (selected.reverse.drop ((page - 1) * perPage)).take perPage
    -- the count is a column of the rows, so a page without rows reports zero
    let total := if shown = [] then 0 else selected.length
    listReply ([chr ','].intercalate (shown.map (listRowJson t))) page perPage total
      ((total + perPage - 1) / perPage)

/-! ### One submission -/

/-- The test on the row of `SELECT e.created_by, e.delegated_to …`. -/
def ownsRow (actorId : Int32) (e : ExamRow) : Bool :=
  match e.createdBy with
  | none => false
  | some createdBy => createdBy = actorId || e.delegatedTo = some actorId

def submissionScopeOk (link : Link) (db : Rows) (idText : Bytes) : Bool :=
  actor.superAdmin ||
    link.scopeRead &&
      match t.rowAt db idText with
      | none => false
      | some entry =>
          match t.examRow (t.examOf entry.1) with
          | none => false
          | some e => ownsRow actor.id e

def detailJson (entry : Int × Submission) : Bytes :=
  commonJson t entry ++ str ",\"answers\":" ++
    (if entry.2.answersJson = [] then str "[]" else entry.2.answersJson) ++
    str ",\"identity_data\":" ++
    (if entry.2.identityData = [] then str "null"
      else str "\"" ++ jsonEscape entry.2.identityData ++ str "\"") ++
    textMember "created_at" (upToSeconds entry.2.createdAt) ++ str "\x7d"

def submissionDetail (link : Link) (db : Rows) (req : Http.Request) : Response :=
  let idText := (req.params.find? (str "id")).getD []
  if idText = [] then failure 400 (str "id required")
  else if !link.reached then failure 404 (str "submission not found")
  else if !submissionScopeOk t actor link db idText then
    if link.probed ∧ (t.rowAt db idText).isSome then failure 403 (str "forbidden")
    else failure 404 (str "submission not found")
  else
    match if link.executed then t.rowAt db idText else none with
    | some entry => ⟨200, str "\x7b\"success\":true,\"submission\":" ++ detailJson t entry ++ str "\x7d"⟩
    | none => failure 404 (str "submission not found")

def deletedReply : Response :=
  ⟨200, str "\x7b\"success\":true,\"ok\":true,\"message\":\"Submission dihapus\"\x7d"⟩

/-- The answer of `delete_submission` when no statement has decided it. -/
def undecidedReply (link : Link) : Response :=
  if link.configured then failure 503 (str "Database tidak tersedia") else deletedReply

def deleteSubmission (link : Link) (db : Rows) (req : Http.Request) : Response × Rows :=
  let idText := (req.params.find? (str "id")).getD []
  if idText = [] then (failure 400 (str "id required"), db)
  else if !link.reached then (undecidedReply link, db)
  else if !submissionScopeOk t actor link db idText then
    if link.probed ∧ (t.rowAt db idText).isSome then (failure 403 (str "forbidden"), db)
    else (undecidedReply link, db)
  else
    match if link.executed then t.castInt idText else none with
    | some id => (deletedReply, db.erase id)
    | none => (failure 500 (str "Gagal menghapus submission"), db)

/-! ### The export -/

/-- `export_exam_id_from`. -/
def exportExamIdFrom (req : Http.Request) : Int32 :=
  let param := (req.params.find? (str "id") <|> req.params.find? (str "exam_id")).getD []
  match stoi param with
  | some id => id
  | none => (stoi (getParam (parseForm req.query) "exam_id")).getD 0

def ownsStored (actorId : Int32) (e : Exam) : Bool :=
  e.createdBy = actorId || e.delegatedTo = some actorId

/-- The row of an export. -/
def exportRow (entry : Int × Submission) : SubmissionRow where
  id := intText entry.1
  examName := ((t.examRow (t.examOf entry.1)).map ExamRow.name).getD []
  studentName := entry.2.studentName
  examNumber := entry.2.examNumber
  studentClass := entry.2.studentClass
  score := entry.2.score
  submittedAt := entry.2.createdAt
  mac := entry.2.macAddress

/-- `WHERE` of the export, with the exam of a row. -/
def exported (filter examId : Int32) : Bool :=
  let allowedIds := (t.stored.filter (ownsStored actor.id)).map Exam.id
  let filter := if !actor.superAdmin ∧ 0 < filter ∧ filter ∉ allowedIds then -1 else filter
  if filter < 0 then false
  else if 0 < filter then examId = filter
  else actor.superAdmin || examId ∈ allowedIds

def exportSubmissionsXlsx (link : Link) (db : Rows) (req : Http.Request) : Response :=
  let filter := exportExamIdFrom req
  let rows :=
    if !link.reached || !link.executed then []
    else (db.entries.filter fun entry => exported t actor filter (t.examOf entry.1)).take 50000
  ⟨200, buildSubmissionsXlsx (rows.map (exportRow t))⟩

end

/-! ### A session and the server -/

variable {sess : SessionData}

/-- A request whose cookie verifies as the session, with what the server meets while it answers. -/
structure Ask (sess : SessionData) where
  base : RouterSurroundings
  link : Link
  req : Http.Request
  verified : base.verifiedSession req = some sess

/-- The surroundings of a request, with the tables as they are. -/
def surroundings (t : Tables) (base : RouterSurroundings) (db : Rows) : RouterSurroundings :=
  { base with
    getById := fun id => t.stored.find? fun e => e.id = id
    adminUsers := t.adminUsers
    submissionExam := fun sid => (t.rowAt db sid).map fun entry => t.examOf entry.1 }

inductive Reply
  | answered (response : Response)
  | redirected (location : Bytes)
  /-- another handler, with the request that it gets -/
  | elsewhere (endpoint : Endpoint) (req : Http.Request)

/-- The server's answer, and the submissions after it. -/
def respond (t : Tables) (db : Rows) (ask : Ask sess) : Reply × Rows :=
  match dispatch (surroundings t ask.base db) ask.req with
  | .refused response => (.answered response, db)
  | .redirect location => (.redirected location, db)
  | .run .listSubmissions fwd =>
      (.answered (listSubmissions t (bulkActor fwd) ask.link db fwd), db)
  | .run .submissionDetail fwd =>
      (.answered (submissionDetail t (bulkActor fwd) ask.link db fwd), db)
  | .run .exportXlsx fwd =>
      (.answered (exportSubmissionsXlsx t (bulkActor fwd) ask.link db fwd), db)
  | .run .deleteSubmission fwd =>
      let r := deleteSubmission t (bulkActor fwd) ask.link db fwd
      (.answered r.1, r.2)
  | .run endpoint fwd => (.elsewhere endpoint fwd, db)

/-- What happens to the submissions: a request of the session, or a row that somebody else writes or
deletes. -/
inductive Action (sess : SessionData)
  | ask (ask : Ask sess)
  | write (id : Int) (row : Submission)
  | delete (id : Int)

/-- The server as the session sees it. -/
def server (t : Tables) (sess : SessionData) : Noninterference.Machine Rows (Action sess) Reply where
  step db
    | .ask ask => (respond t db ask).2
    | .write id row => db.insert id row
    | .delete id => db.erase id
  shows db
    | .ask ask => some (respond t db ask).1
    | _ => none

/-! ### Sight -/

/-- The actor that the handlers read from the headers of a forwarded request. -/
def actorOf (sess : SessionData) : BulkActor where
  id := sess.adminId
  superAdmin := sess.isSuperAdmin
  isOperator := (findSub (str "operator") sess.role).isSome
  instansi := sess.instansi

/-- The exams whose submissions a session may see: the list's, and those of its own. -/
def sees (t : Tables) (sess : SessionData) (examId : Int32) : Bool :=
  listed t (actorOf sess) examId ||
    t.stored.any fun e => e.id = examId && GuardSurroundings.ownsExam sess e

/-- The submissions that a session may see. -/
def visible (t : Tables) (sess : SessionData) (db : Rows) : Rows :=
  db.restrict fun id => sees t sess (t.examOf id)

/-- What somebody else does to a submission out of the session's sight. -/
def Action.unseen (t : Tables) : Action sess → Bool
  | .ask _ => false
  | .write id _ | .delete id => !sees t sess (t.examOf id)

section

variable {t : Tables} {db db' : Rows}

/-- `active_store()->get_by_id` and the ownership test on what it finds. -/
def ownsStoredExam (t : Tables) (sess : SessionData) (examId : Int32) : Bool :=
  match t.stored.find? fun e => e.id = examId with
  | none => false
  | some e => GuardSurroundings.ownsExam sess e

theorem sees_of_ownsStoredExam {examId : Int32} (h : ownsStoredExam t sess examId = true) :
    sees t sess examId = true := by
  unfold ownsStoredExam at h
  cases hfind : t.stored.find? fun e => e.id = examId with
  | none => simp [hfind] at h
  | some e =>
      rw [hfind] at h
      have hid : e.id = examId := by simpa using List.find?_some hfind
      rw [sees, Bool.or_eq_true, List.any_eq_true]
      exact .inr ⟨e, List.mem_of_find?_eq_some hfind, by simpa [hid] using h⟩

/-- Two tables of submissions that look alike have the same row under an id in sight. -/
theorem rowAt_congr (h : visible t sess db = visible t sess db') {idText : Bytes}
    (hid : ∀ id ∈ t.castInt idText, sees t sess (t.examOf id) = true) :
    t.rowAt db idText = t.rowAt db' idText := by
  unfold Tables.rowAt
  cases hcast : t.castInt idText with
  | none => rfl
  | some id => simp only [Option.bind_some, OrderedMap.find?_congr h (hid id hcast)]

/-- The guard's question about a submission, for a session that is no superadmin's. -/
theorem submissionOk_eq (hsuper : sess.isSuperAdmin = false) (base : RouterSurroundings)
    (sid : Bytes) :
    (surroundings t base db).submissionOk sess sid =
      (base.scopePool.reached && base.scopeAcquired && base.scopeQueried &&
        (t.rowAt db sid).any fun entry => ownsStoredExam t sess (t.examOf entry.1)) := by
  unfold GuardSurroundings.submissionOk
  rw [hsuper, Bool.false_or]
  simp only [surroundings]
  congr 1
  cases t.rowAt db sid <;> rfl

theorem submissionOk_congr (hsuper : sess.isSuperAdmin = false)
    (h : visible t sess db = visible t sess db') (base : RouterSurroundings) (sid : Bytes) :
    (surroundings t base db).submissionOk sess sid =
      (surroundings t base db').submissionOk sess sid := by
  rw [submissionOk_eq hsuper, submissionOk_eq hsuper]
  congr 1
  unfold Tables.rowAt
  cases t.castInt sid with
  | none => rfl
  | some id =>
      simp only [Option.bind_some]
      cases hown : ownsStoredExam t sess (t.examOf id) with
      | false => cases db.find? id <;> cases db'.find? id <;> simp [hown]
      | true => rw [OrderedMap.find?_congr h (sees_of_ownsStoredExam hown)]

/-- The guard asks about submissions in one place only. -/
theorem adminApi_congr {w : GuardSurroundings} {req : Http.Request}
    (hsess : w.verifiedSession req = some sess) (lookup : Bytes → Option Int32)
    (h : ∀ sid, w.submissionOk sess sid = { w with submissionExam := lookup }.submissionOk sess sid)
    (roleReq : Bytes) (scope : Scope) :
    adminApi w roleReq scope req = adminApi { w with submissionExam := lookup } roleReq scope req := by
  have hsess' : { w with submissionExam := lookup }.verifiedSession req = some sess := hsess
  have hscope : w.scopeOk scope sess req =
      { w with submissionExam := lookup }.scopeOk scope sess req := by
    cases scope with
    | none => rfl
    | exam => rfl
    | examAccess => rfl
    | submission => simp only [GuardSurroundings.scopeOk, h]
  simp only [adminApi, hsess, hsess', hscope]
  rfl

theorem dispatch_congr (hsuper : sess.isSuperAdmin = false)
    (h : visible t sess db = visible t sess db') (ask : Ask sess) :
    dispatch (surroundings t ask.base db) ask.req = dispatch (surroundings t ask.base db') ask.req := by
  unfold dispatch
  cases firstRoute ask.req with
  | none => rfl
  | some found =>
      obtain ⟨route, params⟩ := found
      simp only [Route.serve]
      cases route.access with
      | guarded roleReq scope =>
          have hsess : (surroundings t ask.base db).verifiedSession { ask.req with params } =
              some sess := ask.verified
          have hsame := adminApi_congr hsess (surroundings t ask.base db').submissionExam
            (submissionOk_congr hsuper h ask.base) roleReq scope
          simp only [hsame]
          rfl
      | _ => rfl

/-! ### Forwarded requests -/

/-- The wrappers of the four handlers. -/
theorem submission_routes :
    ∀ route ∈ routes,
      (route.endpoint ∈ [Endpoint.listSubmissions, .exportXlsx] → route.access.isGuarded = true) ∧
      (route.endpoint ∈ [Endpoint.submissionDetail, .deleteSubmission] →
        route.access = .guarded [] .submission) := by
  decide +kernel

/-- What a handler behind the guard gets. -/
theorem forwarded_of_dispatch {w : RouterSurroundings} {req fwd : Http.Request} {e : Endpoint}
    (hsess : w.verifiedSession req = some sess) (h : dispatch w req = .run e fwd)
    (hguarded : ∀ route ∈ routes, route.endpoint = e → route.access.isGuarded = true) :
    ∃ route ∈ routes, route.endpoint = e ∧ ∃ roleReq scope params,
      route.access = .guarded roleReq scope ∧ fwd = withIdentity sess { req with params } ∧
        w.scopeOk scope sess { req with params } = true := by
  obtain ⟨route, hmem, hanswers, params, hserve⟩ := route_of_dispatch h
  obtain ⟨hendpoint, -⟩ := cleared_of_serve (routes_table.2 route hmem) hanswers.1 hserve
  refine ⟨route, hmem, hendpoint, ?_⟩
  have hguard := hguarded route hmem hendpoint
  unfold Route.serve at hserve
  cases haccess : route.access with
  | guarded roleReq scope =>
      simp only [haccess] at hserve
      split at hserve
      · cases hserve
      case h_2 hadmin =>
          have hsess' : w.verifiedSession { req with params } = some sess := hsess
          obtain ⟨-, hscope, rfl⟩ := adminApi_ok hsess' hadmin
          obtain ⟨-, rfl⟩ := Endpoint.call_eq_run hserve
          exact ⟨roleReq, scope, params, rfl, rfl, hscope⟩
  | plain => simp [haccess, Access.isGuarded] at hguard
  | limited => simp [haccess, Access.isGuarded] at hguard
  | pbGate => simp [haccess, Access.isGuarded] at hguard
  | page => simp [haccess, Access.isGuarded] at hguard

theorem actor_of_forwarded {base : RouterSurroundings} {req fwd : Http.Request} {e : Endpoint}
    (hsess : (surroundings t base db).verifiedSession req = some sess)
    (h : dispatch (surroundings t base db) req = .run e fwd)
    (he : e ∈ [Endpoint.listSubmissions, .exportXlsx]) : bulkActor fwd = actorOf sess := by
  obtain ⟨-, -, -, -, -, params, -, rfl, -⟩ := forwarded_of_dispatch hsess h
    fun route hmem heq => (submission_routes route hmem).1 (heq ▸ he)
  exact bulkActor_withIdentity sess _

/-- The two handlers of one submission get the session's identity, and an id that the guard has
looked up. -/
theorem scope_of_forwarded (hsuper : sess.isSuperAdmin = false) {base : RouterSurroundings}
    {req fwd : Http.Request} {e : Endpoint}
    (hsess : (surroundings t base db).verifiedSession req = some sess)
    (h : dispatch (surroundings t base db) req = .run e fwd)
    (he : e ∈ [Endpoint.submissionDetail, .deleteSubmission]) :
    bulkActor fwd = actorOf sess ∧
      ((fwd.params.find? (str "id")).getD [] = [] ∨
        ∃ id, t.castInt ((fwd.params.find? (str "id")).getD []) = some id ∧
          ownsStoredExam t sess (t.examOf id) = true) := by
  have hroutes : ∀ route ∈ routes, route.endpoint = e → route.access = .guarded [] .submission :=
    fun route hmem heq => (submission_routes route hmem).2 (heq ▸ he)
  obtain ⟨route, hmem, hendpoint, roleReq, scope, params, haccess, rfl, hscope⟩ :=
    forwarded_of_dispatch hsess h fun route hmem heq => by rw [hroutes route hmem heq]; rfl
  refine ⟨bulkActor_withIdentity sess _, ?_⟩
  obtain ⟨-, rfl⟩ : roleReq = [] ∧ scope = .submission := by
    simpa [haccess] using hroutes route hmem hendpoint
  simp only [GuardSurroundings.scopeOk, Bool.or_eq_true, decide_eq_true_eq] at hscope
  refine hscope.imp_right fun hsub => ?_
  rw [submissionOk_eq hsuper, Bool.and_eq_true] at hsub
  obtain ⟨entry, hentry, hown⟩ := (Option.any_eq_true _ _).mp hsub.2
  obtain ⟨id, hcast, hrow⟩ := Option.bind_eq_some_iff.mp hentry
  obtain ⟨row, -, rfl⟩ := Option.map_eq_some_iff.mp hrow
  exact ⟨id, hcast, hown⟩

/-! ### Answers -/

theorem listSubmissions_congr (h : visible t sess db = visible t sess db') (link : Link)
    (req : Http.Request) :
    listSubmissions t (actorOf sess) link db req = listSubmissions t (actorOf sess) link db' req := by
  have hselected : ∀ q, db.entries.filter (selects t (actorOf sess) q) =
      db'.entries.filter (selects t (actorOf sess) q) := by
    intro q
    refine OrderedMap.filter_congr h fun entry hentry => ?_
    simp only [selects, Bool.and_eq_true] at hentry
    rw [sees, hentry.1.1, Bool.true_or]
  simp only [listSubmissions, hselected]

theorem sees_of_exported (hsuper : sess.isSuperAdmin = false) {filter examId : Int32}
    (h : exported t (actorOf sess) filter examId = true) : sees t sess examId = true := by
  have hallowed : examId ∈ (t.stored.filter (ownsStored (actorOf sess).id)).map Exam.id →
      sees t sess examId = true := by
    intro hmem
    obtain ⟨e, he, rfl⟩ := List.mem_map.mp hmem
    obtain ⟨hstored, hown⟩ := List.mem_filter.mp he
    have hown' : GuardSurroundings.ownsExam sess e = true := hown
    rw [sees, Bool.or_eq_true, List.any_eq_true]
    exact .inr ⟨e, hstored, by simpa using hown'⟩
  have hactor : (actorOf sess).superAdmin = false := hsuper
  simp only [exported, hactor, Bool.not_false, true_and, Bool.false_or] at h
  by_cases hrefused : 0 < filter ∧ filter ∉ (t.stored.filter (ownsStored (actorOf sess).id)).map Exam.id
  · rw [if_pos hrefused, if_pos (by decide)] at h
    cases h
  · rw [if_neg hrefused] at h
    by_cases hpos : 0 < filter
    · have hmem := not_not.mp fun hnot => hrefused ⟨hpos, hnot⟩
      have hfilter : 0 ≤ filter ∧ examId = filter := by simpa [hpos] using h
      exact hallowed (hfilter.2 ▸ hmem)
    · have hmem : ¬ filter < 0 ∧ examId ∈ (t.stored.filter (ownsStored (actorOf sess).id)).map Exam.id := by
        simpa [hpos] using h
      exact hallowed hmem.2

theorem exportSubmissionsXlsx_congr (hsuper : sess.isSuperAdmin = false)
    (h : visible t sess db = visible t sess db') (link : Link) (req : Http.Request) :
    exportSubmissionsXlsx t (actorOf sess) link db req =
      exportSubmissionsXlsx t (actorOf sess) link db' req := by
  have hrows : ∀ filter,
      db.entries.filter (fun entry => exported t (actorOf sess) filter (t.examOf entry.1)) =
        db'.entries.filter fun entry => exported t (actorOf sess) filter (t.examOf entry.1) :=
    fun filter => OrderedMap.filter_congr h fun entry hentry => sees_of_exported hsuper hentry
  simp only [exportSubmissionsXlsx, hrows]

theorem rowAt_of_scope (h : visible t sess db = visible t sess db') {idText : Bytes}
    (hid : ∃ id, t.castInt idText = some id ∧ ownsStoredExam t sess (t.examOf id) = true) :
    t.rowAt db idText = t.rowAt db' idText := by
  obtain ⟨id, hcast, hown⟩ := hid
  refine rowAt_congr h fun id' hid' => ?_
  obtain rfl : id = id' := Option.some.inj (hcast.symm.trans hid')
  exact sees_of_ownsStoredExam hown

theorem submissionScopeOk_congr {actor : BulkActor} {link : Link} {idText : Bytes}
    (h : t.rowAt db idText = t.rowAt db' idText) :
    submissionScopeOk t actor link db idText = submissionScopeOk t actor link db' idText := by
  rw [submissionScopeOk, submissionScopeOk, h]

theorem submissionDetail_congr (h : visible t sess db = visible t sess db') (link : Link)
    {req : Http.Request}
    (hscope : (req.params.find? (str "id")).getD [] = [] ∨
      ∃ id, t.castInt ((req.params.find? (str "id")).getD []) = some id ∧
        ownsStoredExam t sess (t.examOf id) = true) :
    submissionDetail t (actorOf sess) link db req = submissionDetail t (actorOf sess) link db' req := by
  rcases hscope with hnone | hid
  · simp only [submissionDetail, hnone, if_true]
  · have hrow := rowAt_of_scope h hid
    simp only [submissionDetail]
    rw [submissionScopeOk_congr hrow, hrow]

/-- A deletion answers the same where the submissions look alike. -/
theorem deleteSubmission_congr (h : visible t sess db = visible t sess db') (link : Link)
    {req : Http.Request}
    (hscope : (req.params.find? (str "id")).getD [] = [] ∨
      ∃ id, t.castInt ((req.params.find? (str "id")).getD []) = some id ∧
        ownsStoredExam t sess (t.examOf id) = true) :
    (deleteSubmission t (actorOf sess) link db req).1 =
        (deleteSubmission t (actorOf sess) link db' req).1 ∧
      visible t sess (deleteSubmission t (actorOf sess) link db req).2 =
        visible t sess (deleteSubmission t (actorOf sess) link db' req).2 := by
  rcases hscope with hnone | hid
  · simp only [deleteSubmission, hnone, if_true]
    exact ⟨trivial, h⟩
  · have hrow := rowAt_of_scope h hid
    simp only [deleteSubmission]
    rw [submissionScopeOk_congr hrow, hrow]
    split
    · exact ⟨rfl, h⟩
    split
    · exact ⟨rfl, h⟩
    split
    · split <;> exact ⟨rfl, h⟩
    split
    · refine ⟨rfl, ?_⟩
      rw [visible, visible, OrderedMap.restrict_erase, OrderedMap.restrict_erase]
      exact congrArg _ h
    · exact ⟨rfl, h⟩

/-- A session's own submission: one of an exam that both the store and the database give it. -/
def ownsSubmission (t : Tables) (sess : SessionData) (id : Int) : Bool :=
  ownsStoredExam t sess (t.examOf id) && (t.examRow (t.examOf id)).any (ownsRow sess.adminId)

theorem ownsRow_of_submissionScopeOk (hsuper : sess.isSuperAdmin = false) {link : Link}
    {idText : Bytes} {id : Int} (hcast : t.castInt idText = some id)
    (h : submissionScopeOk t (actorOf sess) link db idText = true) :
    (t.examRow (t.examOf id)).any (ownsRow sess.adminId) = true := by
  have hactor : (actorOf sess).superAdmin = false := hsuper
  rw [submissionScopeOk, hactor, Bool.false_or, Bool.and_eq_true] at h
  obtain ⟨-, hrow⟩ := h
  simp only [Tables.rowAt, hcast, Option.bind_some] at hrow
  cases hfind : db.find? id with
  | none => simp [hfind] at hrow
  | some row =>
      cases hexam : t.examRow (t.examOf id) with
      | none => simp [hfind, hexam] at hrow
      | some e =>
          simp only [hfind, hexam, Option.map_some] at hrow
          exact hrow

/-- A deletion leaves the submissions as they are, or takes one of the session's own. -/
theorem deleteSubmission_snd (hsuper : sess.isSuperAdmin = false) (link : Link) {req : Http.Request}
    (hscope : (req.params.find? (str "id")).getD [] = [] ∨
      ∃ id, t.castInt ((req.params.find? (str "id")).getD []) = some id ∧
        ownsStoredExam t sess (t.examOf id) = true) :
    (deleteSubmission t (actorOf sess) link db req).2 = db ∨
      ∃ id, ownsSubmission t sess id = true ∧
        (deleteSubmission t (actorOf sess) link db req).2 = db.erase id := by
  rcases hscope with hnone | ⟨id, hcast, hown⟩
  · simp only [deleteSubmission, hnone, if_true, true_or]
  · simp only [deleteSubmission]
    split
    · exact .inl rfl
    split
    · exact .inl rfl
    split
    · split <;> exact .inl rfl
    case isFalse hscopeOk =>
      split
      case h_2 => exact .inl rfl
      case h_1 id' hid' =>
        have hsame : id = id' := by
          split at hid'
          · exact Option.some.inj (hcast.symm.trans hid')
          · cases hid'
        subst hsame
        refine .inr ⟨id, ?_, rfl⟩
        rw [ownsSubmission, hown, Bool.true_and]
        exact ownsRow_of_submissionScopeOk hsuper hcast (by simpa using hscopeOk)

/-! ### Both promises -/

/-- A request is answered the same where the submissions look alike, and they look alike after it. -/
theorem respond_congr (hsuper : sess.isSuperAdmin = false)
    (h : visible t sess db = visible t sess db') (ask : Ask sess) :
    (respond t db ask).1 = (respond t db' ask).1 ∧
      visible t sess (respond t db ask).2 = visible t sess (respond t db' ask).2 := by
  unfold respond
  rw [dispatch_congr hsuper h ask]
  have hsess : (surroundings t ask.base db').verifiedSession ask.req = some sess := ask.verified
  cases hrun : dispatch (surroundings t ask.base db') ask.req with
  | refused response => exact ⟨rfl, h⟩
  | redirect location => exact ⟨rfl, h⟩
  | run e fwd =>
      split
      case h_1 heq => cases heq
      case h_2 heq => cases heq
      case h_3 heq =>
          cases heq
          rw [actor_of_forwarded hsess hrun (by decide), listSubmissions_congr h]
          exact ⟨rfl, h⟩
      case h_4 heq =>
          cases heq
          obtain ⟨hactor, hscope⟩ := scope_of_forwarded hsuper hsess hrun (by decide)
          rw [hactor, submissionDetail_congr h ask.link hscope]
          exact ⟨rfl, h⟩
      case h_5 heq =>
          cases heq
          rw [actor_of_forwarded hsess hrun (by decide), exportSubmissionsXlsx_congr hsuper h]
          exact ⟨rfl, h⟩
      case h_6 heq =>
          cases heq
          obtain ⟨hactor, hscope⟩ := scope_of_forwarded hsuper hsess hrun (by decide)
          rw [hactor]
          have hdelete := deleteSubmission_congr h ask.link hscope
          exact ⟨congrArg Reply.answered hdelete.1, hdelete.2⟩
      case h_7 => exact ⟨rfl, h⟩

theorem respond_snd (hsuper : sess.isSuperAdmin = false) (ask : Ask sess) :
    (respond t db ask).2 = db ∨
      ∃ id, ownsSubmission t sess id = true ∧ (respond t db ask).2 = db.erase id := by
  unfold respond
  have hsess : (surroundings t ask.base db).verifiedSession ask.req = some sess := ask.verified
  cases hrun : dispatch (surroundings t ask.base db) ask.req with
  | refused response => exact .inl rfl
  | redirect location => exact .inl rfl
  | run e fwd =>
      split
      case h_6 heq =>
          cases heq
          obtain ⟨hactor, hscope⟩ := scope_of_forwarded hsuper hsess hrun (by decide)
          rw [hactor]
          exact deleteSubmission_snd hsuper ask.link hscope
      all_goals exact .inl rfl

theorem unwinding_server (hsuper : sess.isSuperAdmin = false) :
    Noninterference.Unwinding (server t sess)
      (fun db db' => visible t sess db = visible t sess db') (Action.unseen t) where
  shows {db db' action} h hseen := by
    cases action with
    | ask ask => exact congrArg some (respond_congr hsuper h ask).1
    | write => rfl
    | delete => rfl
  step {db db' action} h hseen := by
    cases action with
    | ask ask => exact (respond_congr hsuper h ask).2
    | write id row => exact OrderedMap.restrict_insert_congr h id row
    | delete id =>
        change visible t sess (db.erase id) = visible t sess (db'.erase id)
        rw [visible, visible, OrderedMap.restrict_erase, OrderedMap.restrict_erase]
        exact congrArg _ h
  quiet {db action} hunseen := by
    cases action with
    | ask => cases hunseen
    | write => rfl
    | delete => rfl
  respects {db db' action} h hunseen := by
    cases action with
    | ask => cases hunseen
    | write id row =>
        exact (OrderedMap.restrict_insert_of_not (by simpa [Action.unseen] using hunseen) row).trans h
    | delete id =>
        have hout : sees t sess (t.examOf id) = false := by simpa [Action.unseen] using hunseen
        change visible t sess (db.erase id) = visible t sess db'
        rw [visible, OrderedMap.restrict_erase,
          OrderedMap.erase_restrict_of_not (p := fun id => sees t sess (t.examOf id)) hout]
        exact h

/-- The submissions that are not a session's own. -/
def foreign (t : Tables) (sess : SessionData) (db : Rows) : Rows :=
  db.restrict fun id => !ownsSubmission t sess id

def Action.isAsk : Action sess → Bool
  | .ask _ => true
  | _ => false

/-- The server as the owners of the foreign submissions see it, who get no answer here. -/
def owners (t : Tables) (sess : SessionData) : Noninterference.Machine Rows (Action sess) Unit where
  step := (server t sess).step
  shows _ _ := none

theorem unwinding_owners (hsuper : sess.isSuperAdmin = false) :
    Noninterference.Unwinding (owners t sess)
      (fun db db' => foreign t sess db = foreign t sess db') Action.isAsk where
  shows _ _ := rfl
  step {db db' action} h hother := by
    cases action with
    | ask => cases hother
    | write id row => exact OrderedMap.restrict_insert_congr h id row
    | delete id =>
        change foreign t sess (db.erase id) = foreign t sess (db'.erase id)
        rw [foreign, foreign, OrderedMap.restrict_erase, OrderedMap.restrict_erase]
        exact congrArg _ h
  quiet _ := rfl
  respects {db db' action} h hask := by
    cases action with
    | write => cases hask
    | delete => cases hask
    | ask ask =>
        change foreign t sess (respond t db ask).2 = foreign t sess db'
        rcases respond_snd hsuper ask with hsame | ⟨id, hown, herase⟩
        · rw [hsame]
          exact h
        · rw [herase, foreign, OrderedMap.restrict_erase,
            OrderedMap.erase_restrict_of_not (by rw [hown]; rfl)]
          exact h

end

/-- A session that is no superadmin's gets the answers that it would get if nothing had ever
happened to the submissions out of its sight. -/
theorem replies_purged (t : Tables) {sess : SessionData} (hsuper : sess.isSuperAdmin = false)
    {db db' : Rows} (h : visible t sess db = visible t sess db') (actions : List (Action sess)) :
    (server t sess).trace db actions =
      (server t sess).trace db' (actions.filter fun a => !a.unseen t) :=
  (unwinding_server hsuper).trace_purged h actions

def guru : SessionData :=
  { username := str "guru", role := str "[\"guru\"]", instansi := str "SMA 1", adminId := 7 }

/-- An exam of the session above, and one of somebody else's with the submissions from the second
on. -/
def twoSchools : Tables where
  exams := [⟨1, str "Kimia", some 7, none⟩, ⟨2, str "Fisika", some 8, none⟩]
  adminUsers := []
  stored := [{ id := 1, createdBy := 7 }, { id := 2, createdBy := 8 }]
  examOf id := if id = 1 then 1 else 2
  castInt text := (stoi text).map Int32.toInt
  ilike _ _ := false

def guruAsks (method path : String) : Ask guru where
  base := { verifySessionCookie := fun _ _ => some guru }
  link := {}
  req :=
    { method := str method
      path := str path
      headers := OrderedMap.empty.insert (str "Cookie") (str "s") }
  verified := rfl

theorem replies_purged_twoSchools :
    let actions : List (Action guru) :=
      [.ask (guruAsks "GET" "/admin/api/submissions"), .write 3 {}, .delete 2,
        .ask (guruAsks "GET" "/admin/api/submissions/2/detail")]
    (server twoSchools guru).trace ((OrderedMap.empty.insert 1 {}).insert 2 {}) actions =
      (server twoSchools guru).trace (OrderedMap.empty.insert 1 {})
        (actions.filter fun a => !a.unseen twoSchools) :=
  replies_purged twoSchools rfl (OrderedMap.restrict_insert_of_not (by decide) _) _

/-- What such a session asks for leaves the submissions of others as they would be without it. -/
theorem foreign_purged (t : Tables) {sess : SessionData} (hsuper : sess.isSuperAdmin = false)
    (db : Rows) (actions : List (Action sess)) :
    foreign t sess ((server t sess).run db actions) =
      foreign t sess ((server t sess).run db (actions.filter fun a => !a.isAsk)) :=
  (unwinding_owners hsuper).run_purged rfl actions

theorem foreign_purged_twoSchools :
    let actions : List (Action guru) :=
      [.write 2 {}, .ask (guruAsks "POST" "/admin/api/submissions/2/delete"), .write 3 {}]
    foreign twoSchools guru ((server twoSchools guru).run OrderedMap.empty actions) =
      foreign twoSchools guru
        ((server twoSchools guru).run OrderedMap.empty (actions.filter fun a => !a.isAsk)) :=
  foreign_purged twoSchools rfl OrderedMap.empty _

end ExamVan.Admin.Submissions
