import ExamVan.Admin.CreateExam
import ExamVan.Admin.Settings
import ExamVan.Http.AdminApi
import ExamVan.Lib.Patterns

/-!
# The routes of the server

`register_full_routes` lists the routes in the order in which `Router::dispatch` tries them. A route
reaches its handler behind one of a few wrappers: the guard of `/admin/api`, the check of the
dashboard's pages, a rate limit, or the demand for protobuf. No request reaches a handler of the
dashboard past its wrapper, and every route answers all of its paths but the few that an earlier
route takes.
-/

namespace ExamVan.Http

open ByteString Queue Api Patterns

/-! ### Handlers and wrappers -/

/-- The handlers that the routes name. -/
inductive Endpoint
  -- handlers.cpp and the lambdas of the route list
  | healthHandler | root | adminRedirect | tokenRedirect
  -- auth
  | loginPage | loginHandler | logoutHandler | logoutPage | registerPage | registerHandler
  | registerConfirmPage | registerConfirmHandler | resendOtp | forgotPasswordPage
  | forgotPasswordHandler | resetPasswordPage | resetPasswordHandler
  -- public
  | downloadPage | downloadApk | downloadSystemApp | cekHasilPage | hasilPage | cekHasilApi
  -- api
  | health | timeHandler | listExams | requestApproval | examByToken | examPdf | submitExam
  | examResult | accessLog | completeExam | webhook
  -- admin
  | dashboardPage | settingsPage | pengawasPage | pengawasDetailPage | submissionsPage
  | dashboardStats | updateSettings | listUsers | userDetail | createUser | editUser | deleteUser
  | userToggleStatus | userVerify | userDeactivatePackage | instansiUpdate | changePassword
  | listVouchers | createVoucher | createVouchersBatch | vouchersMine | redeemVoucher
  | activateVoucher | listAuditLogs | toggleVoucher | deleteVoucher | voucherRedemptions
  | listPackages | savePackages | listAdminExams | createExam | updateExam | deleteExam
  | bulkToggleExams | bulkDeleteExams | delegateData | delegateExam | getExamQuestions
  | saveExamQuestions | exportXlsx | listSubmissions | submissionDetail | queueStatus
  | deleteSubmission | pengawasState | pengawasExams | pengawasSubmissions | pendingApprovals
  | setApproval | getAutoApprove | setAutoApprove | examAuditLogs | systemAppsPage
  | testSmtpConnection
  deriving DecidableEq

/-- The limiters of `rl_wrap`. -/
inductive Limiter
  | login | register | confirm | resend | forgot | reset | hasilApi | webhook
  deriving DecidableEq

/-- What stands before a handler. -/
inductive Access
  | plain
  /-- `rl_wrap` -/
  | limited (limiter : Limiter)
  /-- `pb_gate` -/
  | pbGate
  /-- `check_auth`, with the path to come back to after a login -/
  | page (next : Bytes)
  /-- `admin_api` -/
  | guarded (roleReq : Bytes) (scope : Scope)
  deriving DecidableEq

structure Route where
  method : Bytes
  pattern : Bytes
  access : Access
  endpoint : Endpoint
  deriving DecidableEq

def get (pattern : String) (access : Access) (endpoint : Endpoint) : Route :=
  ⟨str "GET", str pattern, access, endpoint⟩

def post (pattern : String) (access : Access) (endpoint : Endpoint) : Route :=
  ⟨str "POST", str pattern, access, endpoint⟩

def put (pattern : String) (access : Access) (endpoint : Endpoint) : Route :=
  ⟨str "PUT", str pattern, access, endpoint⟩

def delete (pattern : String) (access : Access) (endpoint : Endpoint) : Route :=
  ⟨str "DELETE", str pattern, access, endpoint⟩

/-! ### The route list -/

def superadmin : Access := .guarded (str "superadmin") .none

def anySession : Access := .guarded [] .none

/-- `register_routes`. -/
def publicRoutes : List Route :=
  [get "/api/health" .plain .healthHandler,
   get "/health" .plain .healthHandler,
   get "/" .plain .root]

/-- The routes of `register_full_routes` before those of the students' API. -/
def siteRoutes : List Route :=
  [get "/login" .plain .loginPage,
   post "/login" (.limited .login) .loginHandler,
   get "/admin/login" .plain .loginPage,
   post "/admin/login" (.limited .login) .loginHandler,
   post "/logout" .plain .logoutHandler,
   get "/logout" .plain .logoutPage,
   get "/register" .plain .registerPage,
   post "/register" (.limited .register) .registerHandler,
   get "/register/confirm" .plain .registerConfirmPage,
   post "/register/confirm" (.limited .confirm) .registerConfirmHandler,
   post "/register/resend" (.limited .resend) .resendOtp,
   get "/forgot-password" .plain .forgotPasswordPage,
   post "/forgot-password" (.limited .forgot) .forgotPasswordHandler,
   get "/reset-password" .plain .resetPasswordPage,
   post "/reset-password" (.limited .reset) .resetPasswordHandler,
   get "/download" .plain .downloadPage,
   get "/download/apk" .plain .downloadApk,
   get "/download/app/:id" .plain .downloadSystemApp,
   get "/hasil" .plain .cekHasilPage,
   get "/hasil/:token" .plain .hasilPage,
   get "/admin" .plain .adminRedirect,
   get "/:token" .plain .tokenRedirect]

def studentRoutes : List Route :=
  [get "/api/health" .plain .health,
   get "/api/time" .plain .timeHandler,
   get "/api/exams" .plain .listExams,
   post "/api/exams/request-approval" .pbGate .requestApproval,
   get "/api/exams/token/:token" .plain .examByToken,
   get "/api/exams/:exam_id/pdf" .plain .examPdf,
   post "/api/exams/:exam_id/submit" .pbGate .submitExam,
   get "/api/exams/:exam_id/result" .plain .examResult,
   post "/api/exams/:exam_id/access-log" .pbGate .accessLog,
   post "/api/exams/:exam_id/complete" .pbGate .completeExam,
   get "/api/hasil/:token" (.limited .hasilApi) .cekHasilApi,
   post "/api/webhook" (.limited .webhook) .webhook]

def pageRoutes : List Route :=
  [get "/admin/dashboard" (.page (str "/admin/dashboard")) .dashboardPage,
   get "/admin/settings" (.page (str "/admin/settings")) .settingsPage,
   get "/admin/pengawas" (.page (str "/admin/pengawas")) .pengawasPage,
   get "/admin/pengawas/:exam_id" (.page (str "/admin/pengawas")) .pengawasDetailPage,
   get "/admin/submissions" (.page (str "/admin/submissions")) .submissionsPage]

def accountRoutes : List Route :=
  [get "/admin/api/stats" anySession .dashboardStats,
   get "/admin/api/saas-settings" superadmin .settingsPage,
   post "/admin/api/saas-settings" superadmin .updateSettings,
   get "/admin/api/users" superadmin .listUsers,
   get "/admin/api/users/:id" superadmin .userDetail,
   post "/admin/api/users" superadmin .createUser,
   put "/admin/api/users/:id" superadmin .editUser,
   post "/admin/api/users/:id/edit" superadmin .editUser,
   delete "/admin/api/users/:id" superadmin .deleteUser,
   post "/admin/api/users/:id/delete" superadmin .deleteUser,
   post "/admin/api/users/:id/toggle-status" superadmin .userToggleStatus,
   post "/admin/api/users/:id/verify" superadmin .userVerify,
   post "/admin/api/users/:id/deactivate-package" superadmin .userDeactivatePackage,
   post "/admin/api/instansi/update" anySession .instansiUpdate,
   post "/admin/api/change-password" anySession .changePassword,
   get "/admin/api/vouchers" superadmin .listVouchers,
   post "/admin/api/vouchers" superadmin .createVoucher,
   post "/admin/api/vouchers/batch" superadmin .createVouchersBatch,
   get "/admin/api/vouchers/mine" anySession .vouchersMine,
   post "/admin/api/vouchers/redeem" anySession .redeemVoucher,
   post "/admin/api/vouchers/activate" anySession .activateVoucher,
   get "/admin/api/vouchers/audit-logs" superadmin .listAuditLogs,
   post "/admin/api/vouchers/:id/toggle" superadmin .toggleVoucher,
   post "/admin/api/vouchers/:id/delete" superadmin .deleteVoucher,
   get "/admin/api/vouchers/:id/redemptions" superadmin .voucherRedemptions,
   get "/admin/api/packages" superadmin .listPackages,
   post "/admin/api/packages" superadmin .savePackages]

def examRoutes : List Route :=
  [get "/admin/api/exams" anySession .listAdminExams,
   post "/admin/api/exams" anySession .createExam,
   post "/admin/api/upload" anySession .createExam,
   put "/admin/api/exams/:id" (.guarded [] .exam) .updateExam,
   delete "/admin/api/exams/:id" (.guarded [] .exam) .deleteExam,
   post "/admin/api/exams/bulk-toggle" anySession .bulkToggleExams,
   post "/admin/api/exams/bulk-delete" anySession .bulkDeleteExams,
   get "/admin/api/exams/:exam_id/delegate-data" (.guarded kRoleOperator .exam) .delegateData,
   post "/admin/api/exams/:exam_id/delegate" (.guarded kRoleOperator .exam) .delegateExam,
   post "/admin/api/exams/:exam_id/toggle" (.guarded [] .exam) .updateExam,
   post "/admin/api/exams/:exam_id/delete" (.guarded [] .exam) .deleteExam,
   post "/admin/api/exams/:exam_id/edit" (.guarded [] .exam) .updateExam,
   post "/admin/api/exams/:exam_id/start" (.guarded [] .exam) .updateExam,
   post "/admin/api/exams/:exam_id/stop" (.guarded [] .exam) .updateExam,
   post "/admin/api/exams/:exam_id/regenerate-token" (.guarded [] .exam) .updateExam,
   post "/admin/api/exams/:exam_id/edit-token" (.guarded [] .exam) .updateExam,
   post "/admin/api/exams/:exam_id/token-mode" (.guarded [] .exam) .updateExam,
   get "/admin/api/exams/:exam_id/questions" (.guarded [] .exam) .getExamQuestions,
   post "/admin/api/exams/:exam_id/questions" (.guarded [] .exam) .saveExamQuestions,
   get "/admin/api/exams/:id/export" (.guarded [] .exam) .exportXlsx]

def submissionRoutes : List Route :=
  [get "/admin/api/submissions" anySession .listSubmissions,
   get "/admin/api/submissions/export" anySession .exportXlsx,
   get "/admin/api/submissions/:id/detail" (.guarded [] .submission) .submissionDetail,
   get "/admin/api/queue/status" anySession .queueStatus,
   post "/admin/api/submissions/:id/delete" (.guarded [] .submission) .deleteSubmission,
   get "/admin/api/pengawas/state" anySession .pengawasState,
   get "/admin/api/pengawas/exams" anySession .pengawasExams,
   get "/admin/api/pengawas/exams/:exam_id/submissions" (.guarded [] .examAccess)
     .pengawasSubmissions,
   get "/admin/api/pengawas/exams/:exam_id/approvals" (.guarded [] .examAccess) .pendingApprovals,
   post "/admin/api/pengawas/exams/:exam_id/approvals/:mac_address" (.guarded [] .examAccess)
     .setApproval,
   get "/admin/api/pengawas/exams/:exam_id/auto-approve" (.guarded [] .examAccess) .getAutoApprove,
   post "/admin/api/pengawas/exams/:exam_id/auto-approve" (.guarded [] .examAccess) .setAutoApprove,
   get "/admin/api/pengawas/exams/:exam_id/audit-logs" (.guarded [] .examAccess) .examAuditLogs,
   get "/admin/api/system-apps" superadmin .systemAppsPage,
   post "/admin/api/system-apps" superadmin .systemAppsPage,
   post "/admin/api/system-apps/:id/delete" superadmin .systemAppsPage,
   post "/admin/api/saas-settings/test-smtp" superadmin .testSmtpConnection]

/-- `register_full_routes`. -/
def routes : List Route :=
  publicRoutes ++ siteRoutes ++ studentRoutes ++ pageRoutes ++ accountRoutes ++ examRoutes ++
    submissionRoutes

/-! ### What a request meets -/

/-- The guard's surroundings, and what the other wrappers ask. -/
structure RouterSurroundings extends GuardSurroundings where
  protobufMandatory : Bool := false
  /-- `EXAMVAN_TRUST_PROXY` -/
  trustProxy : Option Bytes := none
  /-- `RateLimiter::allow` of each limiter -/
  allow : Limiter → Bytes → Bool := fun _ _ => true
  /-- `global_pool()`, its `acquire` and the query, when a page checks the session -/
  pagePool : Bool := true
  pageAcquired : Bool := true
  pageQueried : Bool := true

def isAddressByte (c : UInt8) : Bool :=
  ExamToken.isUpper c || ExamToken.isLower c || isDigit c || c = chr '.' || c = chr ':' ||
    c = chr '_' || c = chr '-'

/-- `client_ip`. -/
def clientIp (trustProxy : Option Bytes) (req : Request) : Bytes :=
  if ∃ v ∈ trustProxy, v = str "0" ∨ v = str "false" ∨ v = str "no" then str "global"
  else
    let realIp := Admin.getHdr req (str "X-Real-IP")
    let ip :=
      if realIp = [] then (Admin.getHdr req (str "X-Forwarded-For")).takeWhile (· ≠ chr ',')
      else realIp
    let t := ExamToken.trim ip
    if t = [] ∨ 64 < t.length ∨ ¬ t.all isAddressByte then str "global" else t

namespace RouterSurroundings

variable (w : RouterSurroundings)

/-- The session that `check_auth` and `page_context` take from the `Cookie` header. -/
def pageSession (req : Request) : Option SessionData :=
  match req.headers.find? (str "Cookie") with
  | none => none
  | some header =>
      if w.secretPrev = [] then w.verifySessionCookie w.secretKey header
      else w.verifySessionCookieDual w.secretKey w.secretPrev header

/-- Whether the account of a session is active, as far as `check_auth` can ask. -/
def accountActive (sess : SessionData) : Bool :=
  !w.pagePool || w.pageAcquired && w.pageQueried &&
    match w.adminUsers.find? (fun user => user.id = sess.adminId) with
    | none => false
    | some user => user.status = str "active"

def checkAuth (req : Request) : Bool :=
  match w.pageSession req with
  | none => false
  | some sess => 0 < sess.adminId && w.accountActive sess

/-- `page_context`. -/
def pageContext (req : Request) : Request :=
  match w.pageSession req with
  | none => req
  | some sess =>
      { req with
        headers := req.headers.insertAll
          [(str "X-Internal-Admin-Id", intText sess.adminId.toInt),
           (str "X-Internal-Admin-Super", if sess.isSuperAdmin then str "1" else str "0"),
           (str "X-Internal-Admin-Role", sess.role)] }

end RouterSurroundings

/-! ### Dispatch -/

/-- A refusal, a redirect, or a handler with the request that it gets. -/
inductive Outcome
  | refused (response : Response)
  | redirect (location : Bytes)
  | run (endpoint : Endpoint) (req : Request)

/-- The lambda of the catch-all route. -/
def redirectToken (req : Request) : Outcome :=
  let t := (req.params.find? (str "token")).getD []
  if ExamToken.isValidExamToken t then .redirect (str "/hasil/" ++ t)
  else .refused (plainError 404 (str "token not found"))

/-- A handler, or one of the two lambdas that only redirect. -/
def Endpoint.call (endpoint : Endpoint) (req : Request) : Outcome :=
  match endpoint with
  | .adminRedirect => .redirect (str "/admin/dashboard")
  | .tokenRedirect => redirectToken req
  | _ => .run endpoint req

/-- The handler of a route, with its wrapper. -/
def Route.serve (w : RouterSurroundings) (route : Route) (req : Request) : Outcome :=
  match route.access with
  | .plain => route.endpoint.call req
  | .limited limiter =>
      if !w.allow limiter (clientIp w.trustProxy req) then
        .refused (plainError 429 (str "Terlalu banyak permintaan. Coba lagi nanti."))
      else route.endpoint.call req
  | .pbGate =>
      match if w.protobufMandatory then Admin.requireProtobuf req else none with
      | some rej => .refused rej
      | none => route.endpoint.call req
  | .page next =>
      if !w.checkAuth req then .redirect (str "/login?next=" ++ next)
      else route.endpoint.call (w.pageContext req)
  | .guarded roleReq scope =>
      match adminApi w.toGuardSurroundings roleReq scope req with
      | .error rr => .refused rr
      | .ok fwd => route.endpoint.call fwd

/-- The route that `Router::dispatch` stops at, with the parameters of the match. -/
def firstRoute (req : Request) : Option (Route × StringMap) :=
  routes.findSome? fun r =>
    if r.method ≠ req.method then none else (routerMatch r.pattern req.path).map (r, ·)

/-- `Router::dispatch`. -/
def dispatch (w : RouterSurroundings) (req : Request) : Outcome :=
  match firstRoute req with
  | none => .refused (plainError 404 (str "not found"))
  | some (route, params) => route.serve w { req with params }

/-! ### What a route matches -/

/-- The literal of a segment, or `none` for a parameter. -/
def literal? (p : Bytes) : Option Bytes := if (paramName? p).isSome then none else some p

def Route.segments (route : Route) : List (Option Bytes) :=
  (Http.segments route.pattern).map literal?

def Request.segments (req : Request) : List Bytes := Http.segments (urlDecode req.path)

theorem fits_literal_self (p : Bytes) : Fits (literal? p) p := by
  unfold literal?
  split <;> simp

theorem isSome_matchSegments {pp ap : List Bytes} {out : StringMap} :
    (matchSegments pp ap out).isSome = true ↔ Matches (pp.map literal?) ap := by
  induction pp generalizing ap out with
  | nil => cases ap <;> simp [matchSegments]
  | cons p pp ih =>
      cases ap with
      | nil => simp [matchSegments, not_matches_cons_nil]
      | cons a ap =>
          unfold matchSegments
          cases hp : paramName? p with
          | some name => simp [ih, literal?, hp]
          | none =>
              by_cases hpa : p = a
              · subst hpa
                simp [ih, literal?, hp]
              · simp [literal?, hp, hpa]

/-- The text of a pattern matches it too, so `Router::match` is a question about segments. -/
theorem isSome_routerMatch {pat path : Bytes} :
    (routerMatch pat path).isSome = true ↔
      Matches ((segments pat).map literal?) (segments (urlDecode path)) := by
  unfold routerMatch
  split
  case isTrue h =>
      simp only [Option.isSome_some, true_iff, ← h]
      exact List.forall₂_map_left_iff.mpr
        (List.forall₂_same.mpr fun p _ => fits_literal_self p)
  case isFalse => exact isSome_matchSegments

/-- Whether a route takes the paths with these segments. -/
def Route.Answers (route : Route) (method : Bytes) (path : List Bytes) : Prop :=
  route.method = method ∧ Matches route.segments path

instance (route : Route) (method : Bytes) (path : List Bytes) :
    Decidable (route.Answers method path) :=
  inferInstanceAs (Decidable (_ ∧ _))

def answering (method : Bytes) (path : List Bytes) : Option Route :=
  routes.find? fun r => r.Answers method path

theorem map_fst_findSome? {α β : Type*} {f : α → Option (α × β)} (hf : ∀ a b, f a = some b → b.1 = a)
    (l : List α) : (l.findSome? f).map Prod.fst = l.find? fun a => (f a).isSome := by
  induction l with
  | nil => rfl
  | cons a l ih =>
      cases h : f a with
      | none => simp [h, ih]
      | some b => simp [h, hf a b h]

theorem firstRoute_fst (req : Request) :
    (firstRoute req).map Prod.fst = answering req.method req.segments := by
  rw [firstRoute, map_fst_findSome?, answering]
  · congr 1
    funext r
    by_cases hm : r.method = req.method
    · simp only [hm, ne_eq, not_true_eq_false, if_false, Option.isSome_map, Route.Answers, true_and]
      rw [Bool.eq_iff_iff, isSome_routerMatch, decide_eq_true_eq]
      rfl
    · simp [hm, Route.Answers]
  · intro r found h
    split at h
    · cases h
    · obtain ⟨params, -, rfl⟩ := Option.map_eq_some_iff.mp h
      rfl

theorem match_of_firstRoute {req : Request} {route : Route} {params : StringMap}
    (h : firstRoute req = some (route, params)) :
    route ∈ routes ∧ route.Answers req.method req.segments ∧
      routerMatch route.pattern req.path = some params := by
  obtain ⟨r, hr, hsome⟩ := List.exists_of_findSome?_eq_some h
  split at hsome
  · cases hsome
  case isFalse hm =>
      obtain ⟨params', hmatch, heq⟩ := Option.map_eq_some_iff.mp hsome
      cases heq
      exact ⟨hr, ⟨not_not.mp hm, isSome_routerMatch.mp (by rw [hmatch]; rfl)⟩, hmatch⟩

/-! ### The order of the routes -/

/-- The paths that an earlier route takes from a route. -/
def hiddenPaths (route : Route) : List (List Bytes) :=
  match route.endpoint with
  | .health => [[str "api", str "health"]]
  | .tokenRedirect =>
      [[str "health"], [str "login"], [str "logout"], [str "register"], [str "forgot-password"],
       [str "reset-password"], [str "download"], [str "hasil"], [str "admin"]]
  | .examPdf => [[str "api", str "exams", str "token", str "pdf"]]
  | .examResult => [[str "api", str "exams", str "token", str "result"]]
  | _ => []

/-- Where two routes meet, the later one has the path among its hidden ones. -/
def Yields (early late : Route) : Prop :=
  early.method ≠ late.method ∨
    ∀ m ∈ (meet early.segments late.segments).toList, ∃ path ∈ hiddenPaths late, m = path.map some

instance (early late : Route) : Decidable (Yields early late) :=
  inferInstanceAs (Decidable (_ ∨ _))

theorem mem_hiddenPaths_of_yields {early late : Route} {method : Bytes} {path : List Bytes}
    (h : Yields early late) (hearly : early.Answers method path) (hlate : late.Answers method path) :
    path ∈ hiddenPaths late := by
  rcases h with hne | hmeet
  · exact absurd (hearly.1.trans hlate.1.symm) hne
  · obtain ⟨m, hm, hmatch⟩ := matches_meet.mp ⟨hearly.2, hlate.2⟩
    obtain ⟨hidden, hmem, rfl⟩ := hmeet m (Option.mem_toList.mpr hm)
    rwa [matches_map_some.mp hmatch]

/-! ### What the wrappers stand before -/

def adminApiPath : List Bytes := [str "admin", str "api"]

/-- The handlers of the dashboard. -/
def Endpoint.isAdmin : Endpoint → Bool
  | .dashboardPage | .settingsPage | .pengawasPage | .pengawasDetailPage | .submissionsPage
  | .dashboardStats | .updateSettings | .listUsers | .userDetail | .createUser | .editUser
  | .deleteUser | .userToggleStatus | .userVerify | .userDeactivatePackage | .instansiUpdate
  | .changePassword | .listVouchers | .createVoucher | .createVouchersBatch | .vouchersMine
  | .redeemVoucher | .activateVoucher | .listAuditLogs | .toggleVoucher | .deleteVoucher
  | .voucherRedemptions | .listPackages | .savePackages | .listAdminExams | .createExam
  | .updateExam | .deleteExam | .bulkToggleExams | .bulkDeleteExams | .delegateData
  | .delegateExam | .getExamQuestions | .saveExamQuestions | .exportXlsx | .listSubmissions
  | .submissionDetail | .queueStatus | .deleteSubmission | .pengawasState | .pengawasExams
  | .pengawasSubmissions | .pendingApprovals | .setApproval | .getAutoApprove | .setAutoApprove
  | .examAuditLogs | .systemAppsPage | .testSmtpConnection => true
  | _ => false

def Access.isGuarded : Access → Bool
  | .guarded .. => true
  | _ => false

def Access.isPage : Access → Bool
  | .page _ => true
  | _ => false

/-- What every session may do with vouchers. -/
def selfService : List (List Bytes) :=
  [[str "admin", str "api", str "vouchers", str "mine"],
   [str "admin", str "api", str "vouchers", str "redeem"],
   [str "admin", str "api", str "vouchers", str "activate"]]

/-- The first segments of the management of users, vouchers, settings, packages and apps. -/
def managed : List (List Bytes) :=
  [[str "admin", str "api", str "users"], [str "admin", str "api", str "vouchers"],
   [str "admin", str "api", str "saas-settings"], [str "admin", str "api", str "packages"],
   [str "admin", str "api", str "system-apps"]]

/-- The paths of the management. -/
def Management (path : List Bytes) : Prop :=
  path ∉ selfService ∧ ∃ area ∈ managed, area <+: path

/-- The wrapper of a route fits its handler and its pattern. -/
structure Wrapped (route : Route) : Prop where
  guarded : Matches (route.segments.take 2) adminApiPath → route.access.isGuarded = true
  adminApi : route.access.isGuarded = true →
    route.segments.take 2 = adminApiPath.map some
  admin : route.endpoint.isAdmin = (route.access.isGuarded || route.access.isPage)
  page : route.access.isPage = true → route.method = str "GET"
  management : ∀ area ∈ managed, Matches (route.segments.take 3) area →
    route.access = superadmin ∨ ∃ path ∈ selfService, route.segments = path.map some
  settings : route.endpoint = .settingsPage →
    route.access = superadmin ∨ route.segments = [some (str "admin"), some (str "settings")]

instance (route : Route) : Decidable (Wrapped route) :=
  decidable_of_iff
    ((Matches (route.segments.take 2) adminApiPath → route.access.isGuarded = true) ∧
      (route.access.isGuarded = true → route.segments.take 2 = adminApiPath.map some) ∧
      route.endpoint.isAdmin = (route.access.isGuarded || route.access.isPage) ∧
      (route.access.isPage = true → route.method = str "GET") ∧
      (∀ area ∈ managed, Matches (route.segments.take 3) area →
        route.access = superadmin ∨ ∃ path ∈ selfService, route.segments = path.map some) ∧
      (route.endpoint = .settingsPage →
        route.access = superadmin ∨ route.segments = [some (str "admin"), some (str "settings")]))
    ⟨fun ⟨h1, h2, h3, h4, h5, h6⟩ => ⟨h1, h2, h3, h4, h5, h6⟩,
      fun ⟨h1, h2, h3, h4, h5, h6⟩ => ⟨h1, h2, h3, h4, h5, h6⟩⟩

/-- A literal's characters, which the kernel reads off faster than it decodes the literal. -/
theorem str_eq_map {s : String} {l : List Char} (h : s = String.ofList l) : str s = l.map chr := by
  rw [h, str, String.toList_ofList]

theorem routes_table : routes.Pairwise Yields ∧ ∀ route ∈ routes, Wrapped route := by
  simp (disch := rfl) only [routes, publicRoutes, siteRoutes, studentRoutes, pageRoutes,
    accountRoutes, examRoutes, submissionRoutes, get, post, put, delete, superadmin, anySession,
    str_eq_map, List.cons_append, List.nil_append]
  exact ⟨by decide +kernel, by decide +kernel⟩

theorem answering_of_mem_hiddenPaths :
    ∀ route ∈ routes, ∀ path ∈ hiddenPaths route, answering route.method path ≠ some route := by
  decide +kernel

theorem answering_iff {route : Route} (hmem : route ∈ routes) {method : Bytes} {path : List Bytes} :
    answering method path = some route ↔
      route.Answers method path ∧ path ∉ hiddenPaths route := by
  constructor
  · intro h
    have hanswers : route.Answers method path := by simpa using List.find?_some h
    refine ⟨hanswers, fun hhidden => ?_⟩
    have hnot := answering_of_mem_hiddenPaths route hmem path hhidden
    rw [hanswers.1] at hnot
    exact hnot h
  · rintro ⟨hanswers, hhidden⟩
    rcases @find?_eq_or_rel Route Yields routes (fun r => r.Answers method path) route
      routes_table.1 hmem (decide_eq_true hanswers) with hfound | ⟨first, -, hfirst, hyields⟩
    · exact hfound
    · exact absurd (mem_hiddenPaths_of_yields hyields (of_decide_eq_true hfirst) hanswers) hhidden

/-- A route gets the requests that match it, except for the paths that an earlier route takes. -/
theorem firstRoute_iff {route : Route} (hmem : route ∈ routes) (req : Request) :
    (∃ params, firstRoute req = some (route, params)) ↔
      route.method = req.method ∧ Matches route.segments req.segments ∧
        req.segments ∉ hiddenPaths route := by
  calc (∃ params, firstRoute req = some (route, params))
      ↔ (firstRoute req).map Prod.fst = some route := by simp
    _ ↔ answering req.method req.segments = some route := by rw [firstRoute_fst]
    _ ↔ route.Answers req.method req.segments ∧ req.segments ∉ hiddenPaths route :=
        answering_iff hmem
    _ ↔ _ := and_assoc

/-- `/api/exams/token/pdf/` goes to the token lookup although the route of the PDFs matches it. -/
theorem firstRoute_iff_examPdf :
    ¬ ∃ params, firstRoute { method := str "GET", path := str "/api/exams/%74oken/pdf/" } =
      some (get "/api/exams/:exam_id/pdf" .plain .examPdf, params) := by
  rw [firstRoute_iff (by decide)]
  decide

theorem dispatch_of_answers {w : RouterSurroundings} {route : Route} {req : Request}
    (hmem : route ∈ routes) (h : route.Answers req.method req.segments)
    (hhidden : req.segments ∉ hiddenPaths route) :
    ∃ params, dispatch w req = route.serve w { req with params } := by
  have hfirst : (firstRoute req).map Prod.fst = some route := by
    rw [firstRoute_fst, (answering_iff hmem).mpr ⟨h, hhidden⟩]
  obtain ⟨⟨_, params⟩, hfound, rfl⟩ := Option.map_eq_some_iff.mp hfirst
  exact ⟨params, by rw [dispatch, hfound]⟩

/-! ### What has been checked when a handler runs -/

/-- The session behind a request that the guard of `/admin/api` lets through. -/
structure Cleared (w : GuardSurroundings) (req fwd : Request) (sess : SessionData) : Prop where
  verified : w.verifiedSession req = some sess
  identified : 0 < sess.adminId
  current : w.sessionRevoked sess = false
  csrf : GuardSurroundings.isMutating req.method = true → w.csrfOk req = true
  forwarded : ∃ params, fwd = withIdentity sess { req with params }

/-- The session behind a page of the dashboard. -/
structure PageCleared (w : RouterSurroundings) (req fwd : Request) (sess : SessionData) : Prop where
  method : req.method = str "GET"
  verified : w.pageSession req = some sess
  identified : 0 < sess.adminId
  active : w.accountActive sess = true
  forwarded : ∃ params, fwd = w.pageContext { req with params }

theorem Endpoint.call_eq_run {endpoint e : Endpoint} {req fwd : Request}
    (h : endpoint.call req = .run e fwd) : endpoint = e ∧ req = fwd := by
  unfold Endpoint.call at h
  split at h
  · cases h
  · simp only [redirectToken] at h
    split at h <;> cases h
  · cases h
    exact ⟨rfl, rfl⟩

/-- What the guard has checked, with the role that the route asks for. -/
theorem cleared_of_adminApi {w : GuardSurroundings} {roleReq : Bytes} {scope : Scope}
    {req fwd : Request} {params : StringMap}
    (h : adminApi w roleReq scope { req with params } = .ok fwd) :
    ∃ sess, Cleared w req fwd sess ∧
      (roleReq ≠ [] → sess.isSuperAdmin = true ∨ hasRole sess.role roleReq = true) := by
  cases hsess : w.verifiedSession { req with params } with
  | none => simp [adminApi, hsess, ite_error_eq_ok] at h
  | some sess =>
      have hclear := adminApi_ok hsess h
      simp only [adminApi, hsess, ite_error_eq_ok] at h
      obtain ⟨-, -, -, hrevoked, hrole, hcsrf, -, -⟩ := h
      refine ⟨sess, ⟨hsess, hclear.1, by simpa using hrevoked, ?_, params, hclear.2.2⟩, ?_⟩
      · intro hmutating
        have hok : w.csrfOk { req with params } = true := by simpa [hmutating] using hcsrf
        exact hok
      · intro hne
        simpa [hne, or_iff_not_imp_left] using hrole

/-- A handler runs because a route matches and its wrapper lets the request through. -/
theorem route_of_dispatch {w : RouterSurroundings} {req fwd : Request} {e : Endpoint}
    (h : dispatch w req = .run e fwd) :
    ∃ route ∈ routes, route.Answers req.method req.segments ∧
      ∃ params, route.serve w { req with params } = .run e fwd := by
  unfold dispatch at h
  split at h
  · cases h
  case h_2 route params hfirst =>
      obtain ⟨hmem, hanswers, -⟩ := match_of_firstRoute hfirst
      exact ⟨route, hmem, hanswers, params, h⟩

/-- A handler of the dashboard runs behind the guard or behind a page's check of the session. -/
theorem cleared_of_serve {w : RouterSurroundings} {route : Route} {req fwd : Request}
    {params : StringMap} {e : Endpoint} (hwrapped : Wrapped route)
    (hmethod : route.method = req.method) (h : route.serve w { req with params } = .run e fwd) :
    route.endpoint = e ∧
      (route.access.isGuarded = true →
        ∃ sess, Cleared w.toGuardSurroundings req fwd sess ∧
          (route.access = superadmin →
            sess.isSuperAdmin = true ∨ hasRole sess.role (str "superadmin") = true)) ∧
      (route.access.isPage = true → ∃ sess, PageCleared w req fwd sess) := by
  unfold Route.serve at h
  cases haccess : route.access with
  | plain =>
      simp only [haccess] at h
      exact ⟨(Endpoint.call_eq_run h).1, by simp [Access.isGuarded], by simp [Access.isPage]⟩
  | limited limiter =>
      simp only [haccess] at h
      split at h
      · cases h
      · exact ⟨(Endpoint.call_eq_run h).1, by simp [Access.isGuarded], by simp [Access.isPage]⟩
  | pbGate =>
      simp only [haccess] at h
      split at h
      · cases h
      · exact ⟨(Endpoint.call_eq_run h).1, by simp [Access.isGuarded], by simp [Access.isPage]⟩
  | page next =>
      simp only [haccess] at h
      split at h
      · cases h
      case isFalse hauth =>
          obtain ⟨hendpoint, rfl⟩ := Endpoint.call_eq_run h
          refine ⟨hendpoint, by simp [Access.isGuarded], fun hpage => ?_⟩
          have hauth' : w.checkAuth { req with params } = true := by simpa using hauth
          have hsame : w.pageSession { req with params } = w.pageSession req := rfl
          rw [RouterSurroundings.checkAuth, hsame] at hauth'
          cases hsess : w.pageSession req with
          | none => simp [hsess] at hauth'
          | some sess =>
              simp only [hsess, Bool.and_eq_true, decide_eq_true_eq] at hauth'
              have hget := hwrapped.page (by rw [haccess]; rfl)
              exact ⟨sess, hmethod ▸ hget, hsess, hauth'.1, hauth'.2, params, rfl⟩
  | guarded roleReq scope =>
      simp only [haccess] at h
      split at h
      · cases h
      case h_2 fwd' hadmin =>
          obtain ⟨hendpoint, rfl⟩ := Endpoint.call_eq_run h
          obtain ⟨sess, hclear, hrole⟩ := cleared_of_adminApi hadmin
          refine ⟨hendpoint, fun _ => ⟨sess, hclear, fun hsuper => ?_⟩, by simp [Access.isPage]⟩
          obtain ⟨rfl, -⟩ : roleReq = str "superadmin" ∧ scope = .none := by
            simpa [superadmin] using hsuper
          exact hrole (by decide)

/-- The path of a request that a guarded route serves starts with `/admin/api`, and no other route
serves such a path. -/
theorem isGuarded_iff {route : Route} {path : List Bytes} (hwrapped : Wrapped route)
    (hmatch : Matches route.segments path) :
    route.access.isGuarded = true ↔ adminApiPath <+: path := by
  constructor
  · intro hguarded
    have htake := List.forall₂_take 2 hmatch
    rw [hwrapped.adminApi hguarded] at htake
    rw [← matches_map_some.mp htake]
    exact List.take_prefix 2 path
  · intro hpath
    exact hwrapped.guarded (matches_take hmatch hpath)

theorem eq_superadmin_of_management {route : Route} {path : List Bytes} (hwrapped : Wrapped route)
    (hmatch : Matches route.segments path) (hpath : Management path) :
    route.access = superadmin := by
  obtain ⟨hself, area, harea, hprefix⟩ := hpath
  have hlength : ∀ area ∈ managed, area.length = 3 := by decide
  have htake := matches_take hmatch hprefix
  rw [hlength area harea] at htake
  rcases hwrapped.management area harea htake with haccess | ⟨own, hown, hsegments⟩
  · exact haccess
  · rw [hsegments, matches_map_some] at hmatch
    exact absurd (hmatch ▸ hown) hself

/-- Under `/admin/api` a handler runs for a verified, unrevoked session with the CSRF token that its
method needs, and on the management's paths for a superadmin. Elsewhere a handler of the dashboard
runs for the active session behind a page. -/
theorem run_cleared {w : RouterSurroundings} {req fwd : Request} {e : Endpoint}
    (h : dispatch w req = .run e fwd) :
    if adminApiPath <+: req.segments then
      e.isAdmin = true ∧ ∃ sess, Cleared w.toGuardSurroundings req fwd sess ∧
        (Management req.segments →
          sess.isSuperAdmin = true ∨ hasRole sess.role (str "superadmin") = true)
    else e.isAdmin = true → ∃ sess, PageCleared w req fwd sess := by
  obtain ⟨route, hmem, ⟨hmethod, hmatch⟩, params, hserve⟩ := route_of_dispatch h
  have hwrapped := routes_table.2 route hmem
  obtain ⟨rfl, hguard, hpage⟩ := cleared_of_serve hwrapped hmethod hserve
  have hiff := isGuarded_iff hwrapped hmatch
  by_cases hpath : adminApiPath <+: req.segments
  · have hguarded := hiff.mpr hpath
    rw [if_pos hpath]
    refine ⟨by rw [hwrapped.admin, hguarded, Bool.true_or], ?_⟩
    obtain ⟨sess, hclear, hsuper⟩ := hguard hguarded
    exact ⟨sess, hclear, fun hmanaged =>
      hsuper (eq_superadmin_of_management hwrapped hmatch hmanaged)⟩
  · rw [if_neg hpath]
    intro hadmin
    have hnot : route.access.isGuarded = false := by
      simpa [hpath] using hiff
    rw [hwrapped.admin, hnot, Bool.false_or] at hadmin
    exact hpage hadmin

def rootSession : SessionData :=
  { isSuperAdmin := true, username := str "root", role := str "[\"superadmin\"]", adminId := 1 }

/-- Surroundings in which the cookies of one superadmin verify. -/
def rootOnly : RouterSurroundings :=
  { verifySessionCookie := fun _ _ => some rootSession, pagePool := false,
    sessionPool := ⟨false, false, false⟩ }

def usersRequest : Request :=
  { method := str "GET", path := str "/admin/%61pi/users/",
    headers := OrderedMap.empty.insert (str "Cookie") (str "s") }

def settingsRequest : Request := { usersRequest with path := str "/admin//settings" }

theorem run_cleared_listUsers :
    ∃ fwd sess, dispatch rootOnly usersRequest = .run .listUsers fwd ∧
      Cleared rootOnly.toGuardSurroundings usersRequest fwd sess := by
  obtain ⟨params, hdispatch⟩ := @dispatch_of_answers rootOnly
    (get "/admin/api/users" superadmin .listUsers) usersRequest (by simp [routes, accountRoutes])
    (by decide) (by decide)
  have hrun : dispatch rootOnly usersRequest =
      .run .listUsers (withIdentity rootSession { usersRequest with params }) := hdispatch.trans rfl
  have hcleared := run_cleared hrun
  rw [if_pos (by decide)] at hcleared
  obtain ⟨-, sess, hsess, -⟩ := hcleared
  exact ⟨_, sess, hrun, hsess⟩

/-! ### The settings -/

/-- A segment between two slashes of a raw path is a segment of the decoded one. -/
theorem mem_segments_of_findSub {path : Bytes} (h : (findSub (str "/api/") path).isSome = true) :
    str "api" ∈ segments (urlDecode path) := by
  obtain ⟨found, hfound⟩ := Option.isSome_iff_exists.mp h
  obtain ⟨before, rfl, after, rfl⟩ := exists_of_findSub hfound
  have hslash : ∀ s t : Bytes, urlDecode (s ++ chr '/' :: t) = urlDecode s ++ chr '/' :: urlDecode t :=
    urlDecode_append_cons (by decide) (by decide) (by decide)
  have hdecode : urlDecode (before ++ (str "/api/" ++ after)) =
      urlDecode before ++ chr '/' :: (str "api" ++ chr '/' :: urlDecode after) := by
    calc urlDecode (before ++ (str "/api/" ++ after))
        = urlDecode (before ++ chr '/' :: (str "api" ++ chr '/' :: after)) := rfl
      _ = urlDecode before ++ chr '/' :: (urlDecode (str "api") ++ chr '/' :: urlDecode after) := by
          rw [hslash, hslash]
      _ = _ := by rw [show urlDecode (str "api") = str "api" by decide]
  have hsplit : (str "api" ++ chr '/' :: urlDecode after).splitOn (chr '/') =
      str "api" :: (urlDecode after).splitOn (chr '/') := by
    rw [List.splitOn_append_cons_self, List.splitOn_eq_singleton (by decide), List.singleton_append]
  rw [hdecode, segments, List.splitOn_append_cons_self, hsplit, List.mem_filter]
  exact ⟨List.mem_append_right _ List.mem_cons_self, by decide⟩

theorem Cleared.path {w : GuardSurroundings} {req fwd : Request} {sess : SessionData}
    (h : Cleared w req fwd sess) : fwd.path = req.path := by
  obtain ⟨params, rfl⟩ := h.forwarded
  rfl

theorem PageCleared.path {w : RouterSurroundings} {req fwd : Request} {sess : SessionData}
    (h : PageCleared w req fwd sess) : fwd.path = req.path := by
  obtain ⟨params, rfl⟩ := h.forwarded
  unfold RouterSurroundings.pageContext
  split <;> rfl

/-- `settings_page` stands behind two routes, and the one that any session may open never writes the
settings: its answer is the page whatever the table holds. -/
theorem settingsPage_cleared {w : RouterSurroundings} {req fwd : Request}
    (h : dispatch w req = .run .settingsPage fwd) :
    (∃ sess, Cleared w.toGuardSurroundings req fwd sess ∧
      (sess.isSuperAdmin = true ∨ hasRole sess.role (str "superadmin") = true)) ∨
    ∀ html table, Admin.Settings.settingsPage html table fwd.path = html := by
  obtain ⟨route, hmem, ⟨hmethod, hmatch⟩, params, hserve⟩ := route_of_dispatch h
  have hwrapped := routes_table.2 route hmem
  obtain ⟨hendpoint, hguard, hpage⟩ := cleared_of_serve hwrapped hmethod hserve
  rcases hwrapped.settings hendpoint with hsuper | hsegments
  · obtain ⟨sess, hclear, hrole⟩ := hguard (by rw [hsuper]; rfl)
    exact .inl ⟨sess, hclear, hrole hsuper⟩
  · refine .inr fun html table => ?_
    have hpath : req.segments = [str "admin", str "settings"] := by
      rw [hsegments] at hmatch
      exact matches_map_some.mp hmatch
    have hadmin : (route.access.isGuarded || route.access.isPage) = true := by
      rw [← hwrapped.admin, hendpoint]
      rfl
    have hfwd : fwd.path = req.path := by
      rcases Bool.or_eq_true_iff.mp hadmin with hguarded | hpaged
      · obtain ⟨sess, hclear, -⟩ := hguard hguarded
        exact hclear.path
      · obtain ⟨sess, hclear⟩ := hpage hpaged
        exact hclear.path
    have hnone : ¬ (findSub (str "/api/") fwd.path).isSome = true := by
      intro hsome
      rw [hfwd] at hsome
      have hmem := mem_segments_of_findSub hsome
      rw [show segments (urlDecode req.path) = _ from hpath] at hmem
      revert hmem
      decide
    rw [Admin.Settings.settingsPage, if_neg hnone]

theorem settingsPage_cleared_page :
    ∃ fwd, dispatch rootOnly settingsRequest = .run .settingsPage fwd ∧
      ((∃ sess, Cleared rootOnly.toGuardSurroundings settingsRequest fwd sess ∧
        (sess.isSuperAdmin = true ∨ hasRole sess.role (str "superadmin") = true)) ∨
      ∀ html table, Admin.Settings.settingsPage html table fwd.path = html) := by
  obtain ⟨params, hdispatch⟩ := @dispatch_of_answers rootOnly
    (get "/admin/settings" (.page (str "/admin/settings")) .settingsPage) settingsRequest
    (by simp [routes, pageRoutes]) (by decide) (by decide)
  have hrun : dispatch rootOnly settingsRequest =
      .run .settingsPage (rootOnly.pageContext { settingsRequest with params }) :=
    hdispatch.trans rfl
  exact ⟨_, hrun, settingsPage_cleared hrun⟩

end ExamVan.Http
