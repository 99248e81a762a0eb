import ExamVan.Admin.Lifecycle

/-!
# The scope of a bulk request

`bulk_toggle_exams` and `bulk_delete_exams` stand behind the guard without a scope and decide about
each exam themselves, by `exam_bulk_scope_ok`. That asks the database about every session, while the
guard of the routes of one exam asks it about operators only, and it takes any role with `operator`
in its text for the operator's.
-/

namespace ExamVan.Admin

open ByteString Queue Models Http Api Store

/-! ### The scope -/

/-- What a bulk handler reads from the guard's headers. -/
structure BulkActor where
  id : Int32
  superAdmin : Bool
  isOperator : Bool
  instansi : Bytes

def bulkActor (req : Http.Request) : BulkActor where
  id := ((req.headers.find? (str "X-Internal-Admin-Id")).bind stoi).getD 0
  superAdmin := req.headers.find? (str "X-Internal-Admin-Super") = some (str "1")
  isOperator :=
    (findSub (str "operator") ((req.headers.find? (str "X-Internal-Admin-Role")).getD [])).isSome
  instansi := (req.headers.find? (str "X-Internal-Admin-Instansi")).getD []

/-- `SELECT 1 FROM admin_users me JOIN admin_users owner ON owner.id=$2 WHERE me.id=$1 AND …`. -/
def InOwnersInstitution (g : GuardSurroundings) (actorId createdBy : Int32) (instansi : Bytes) :
    Prop :=
  ∃ me ∈ g.adminUsers, ∃ owner ∈ g.adminUsers, owner.id = createdBy ∧ me.id = actorId ∧
    me.instansi = instansi ∧ me.instansi ≠ [] ∧ me.instansi ≠ str "personal" ∧
    me.instansi = owner.instansi ∧ owner.instansi ≠ [] ∧ owner.instansi ≠ str "personal"

instance (g : GuardSurroundings) (actorId createdBy : Int32) (instansi : Bytes) :
    Decidable (InOwnersInstitution g actorId createdBy instansi) := by
  unfold InOwnersInstitution; infer_instance

/-- `exam_bulk_scope_ok`. -/
def examBulkScopeOk (g : GuardSurroundings) (actor : BulkActor) (examId : Int32) (e : Exam) : Bool :=
  actor.superAdmin || e.createdBy = actor.id || e.delegatedTo = some actor.id ||
    (0 < actor.id && g.scopePool.reached && g.scopeAcquired && g.scopeQueried &&
      ((examId, actor.id) ∈ g.examPengawas ||
        (actor.isOperator && actor.instansi ≠ [] && actor.instansi ≠ str "personal" &&
          InOwnersInstitution g actor.id e.createdBy actor.instansi)))

/-! ### Deleting in bulk -/

/-- The loop of `bulk_delete_exams`, with two files for each exam. -/
def deleteEach (scopeOk : Int32 → Exam → Bool) (who : AuditIdentity) :
    List Int32 → Nat → Prog Op Ans Nat
  | [], count => .done count
  | id :: rest, count => do
      match ← Exams.getById id with
      | none => deleteEach scopeOk who rest count
      | some e =>
          if !scopeOk id e then deleteEach scopeOk who rest count
          else if !(← Exams.remove id) then deleteEach scopeOk who rest count
          else do
            writeAuditLog (intText id.toInt) who (str "bulk_delete") (str "keys=2")
            deleteEach scopeOk who rest (count + 1)

def bulkDeleteExams (scopeOk : Int32 → Exam → Bool) (env : HandlerEnv) (req : Http.Request) :
    HandlerProg :=
  let ids := (parseIntArray (jsonRawValue req.body (str "ids"))).getD []
  if ids = [] then respond (Http.failure 400 (str "ids must be a non-empty array of numbers"))
  else if !env.r2Enabled then
    respond (Http.codedFailure 503 r2NotConfigured (str "R2_NOT_CONFIGURED"))
  else do
    let count ← deleteEach scopeOk (Http.auditIdentityFrom req) ids 0
    return .response (bulkDeleteReply count)

/-! ### What a bulk request does to the store -/

section

variable {scopeOk : Int32 → Exam → Bool} {who : AuditIdentity} {status : Bytes} {m : Int32}

theorem store_writeAuditLog (examId : Bytes) (who : AuditIdentity) (action detail : Bytes)
    (w : ExamWorld) :
    ((writeAuditLog examId who action detail).runOn Op.performOn w).2.store = w.store := by
  unfold writeAuditLog
  simp only [Pg.acquire, Prog.op_bind, Prog.runOn_call]
  split <;> rfl

theorem getById_toggle_step (w : ExamWorld) (id : Int32) :
    (w.store.update id (setStatus status)).2.getById m =
      (w.store.getById m).map fun e => if m = id then setStatus status e else e := by
  have hid : ∀ e, (setStatus status e).id = e.id := fun _ => rfl
  by_cases hm : m = id
  · subst hm
    simp only [MemoryStore.getById_update_self hid, if_true]
  · simp only [MemoryStore.getById_update_of_ne hm hid, if_neg hm, Option.map_id']

/-- Every exam of the list that is in scope gets the status, and no other exam changes. -/
theorem getById_toggleEach (hscope : ∀ id e, scopeOk id (setStatus status e) = scopeOk id e)
    (ids : List Int32) (count : Nat) (w : ExamWorld) :
    ((toggleEach scopeOk who status ids count).runOn Op.performOn w).2.store.getById m =
      (w.store.getById m).map fun e =>
        if m ∈ ids ∧ scopeOk m e = true then setStatus status e else e := by
  induction ids generalizing count w with
  | nil => simp [toggleEach]
  | cons id rest ih =>
      have hidem : ∀ e, setStatus status (setStatus status e) = setStatus status e := by
        intro e
        by_cases hstatus : status = str "active" <;> simp [setStatus, hstatus]
      have hskip : (∀ e, w.store.getById id = some e → scopeOk id e = false) →
          (w.store.getById m).map (fun e =>
              if m ∈ rest ∧ scopeOk m e = true then setStatus status e else e) =
            (w.store.getById m).map fun e =>
              if m ∈ id :: rest ∧ scopeOk m e = true then setStatus status e else e := by
        intro hout
        refine Option.map_congr fun e he => ?_
        by_cases hm : m = id
        · subst hm
          simp [hout e he]
        · simp [hm]
      unfold toggleEach
      simp only [Exams.getById, Prog.op_bind, Prog.runOn_call]
      change (Prog.runOn Op.performOn (match w.store.getById id with
        | none => _
        | some e => _) w).2.store.getById m = _
      cases hfind : w.store.getById id with
      | none =>
          rw [ih]
          exact hskip fun e he => by rw [hfind] at he; cases he
      | some e =>
          dsimp only
          cases hok : scopeOk id e with
          | false =>
              rw [if_pos (by rfl), ih]
              exact hskip fun e' he' => by
                rw [hfind] at he'
                rw [← Option.some.inj he', hok]
          | true =>
              rw [if_neg (by decide)]
              change (Prog.runOn Op.performOn (match w.store.getById id with
                | none => _
                | some e => _) (w.setStore _)).2.store.getById m = _
              rw [hfind]
              dsimp only
              rw [Prog.runOn_bind, ih, store_writeAuditLog]
              change ((w.store.update id (setStatus status)).2.getById m).map _ = _
              rw [getById_toggle_step, Option.map_map]
              refine Option.map_congr fun e' he' => ?_
              by_cases hm : m = id
              · subst hm
                have he : e' = e := Option.some.inj (he'.symm.trans hfind)
                subst he
                simp [hscope, hok, hidem]
              · simp [hm]

/-- Every exam of the list that is in scope is gone, and no other exam changes. -/
theorem getById_deleteEach (ids : List Int32) (count : Nat) (w : ExamWorld)
    (hnodup : (w.store.exams.map Exam.id).Nodup) :
    ((deleteEach scopeOk who ids count).runOn Op.performOn w).2.store.getById m =
      (w.store.getById m).filter fun e => !(decide (m ∈ ids) && scopeOk m e) := by
  induction ids generalizing count w with
  | nil =>
      rw [deleteEach, Prog.runOn_done]
      cases w.store.getById m with
      | none => rfl
      | some e => simp [Option.filter_some]
  | cons id rest ih =>
      have hskip : (∀ e, w.store.getById id = some e → scopeOk id e = false) →
          (w.store.getById m).filter (fun e => !(decide (m ∈ rest) && scopeOk m e)) =
            (w.store.getById m).filter fun e => !(decide (m ∈ id :: rest) && scopeOk m e) := by
        intro hout
        cases hm : w.store.getById m with
        | none => rfl
        | some e =>
            by_cases heq : m = id
            · subst heq
              simp [Option.filter_some, hout e hm]
            · simp [heq]
      unfold deleteEach
      simp only [Exams.getById, Prog.op_bind, Prog.runOn_call]
      change (Prog.runOn Op.performOn (match w.store.getById id with
        | none => _
        | some e => _) w).2.store.getById m = _
      cases hfind : w.store.getById id with
      | none =>
          rw [ih _ _ hnodup]
          exact hskip fun e he => by rw [hfind] at he; cases he
      | some e =>
          dsimp only
          cases hok : scopeOk id e with
          | false =>
              rw [if_pos (by rfl), ih _ _ hnodup]
              exact hskip fun e' he' => by
                rw [hfind] at he'
                rw [← Option.some.inj he', hok]
          | true =>
              rw [if_neg (by decide)]
              have hremoved : (w.store.remove id).1 = true := by rw [MemoryStore.remove, hfind]
              have hstore : ((w.store.remove id).2.exams.map Exam.id).Nodup :=
                MemoryStore.nodup_remove hnodup
              simp only [Prog.runOn_call, Op.performOn, hremoved]
              rw [if_neg (by decide), Prog.runOn_bind, ih, store_writeAuditLog]
              · change ((w.store.remove id).2.getById m).filter _ = _
                rw [MemoryStore.getById_remove hnodup]
                by_cases hm : m = id
                · subst hm
                  simp [hfind, hok, Option.filter_some]
                · simp [hm]
              · rw [store_writeAuditLog]
                exact hstore

end

/-! ### The two decisions -/

/-- A request to a route of one exam, as far as the guard's scope reads it. -/
def examRequest (id : Int32) : Http.Request :=
  { params := OrderedMap.empty.insert (str "exam_id") (intText id.toInt) }

/-- The scope `exam` lets the session through to the routes of an exam. -/
def admitted (g : GuardSurroundings) (sess : SessionData) (id : Int32) : Bool :=
  g.scopeOk .exam sess (examRequest id)

/-- The session is of the institution that the exam's creator belongs to. -/
def SharesInstitution (g : GuardSurroundings) (sess : SessionData) (e : Exam) : Prop :=
  sess.instansi ≠ [] ∧ sess.instansi ≠ str "personal" ∧
    ∃ owner ∈ g.adminUsers, owner.id = e.createdBy ∧ owner.instansi = sess.instansi

/-- Where the two decisions coincide: the exam is the session's own, or it supervises the exam as an
operator, or it does not supervise it and has the operator's role as the database knows it, unless
its role does not mention operators or it is of another institution. -/
def SameScope (g : GuardSurroundings) (sess : SessionData) (id : Int32) (e : Exam) : Prop :=
  GuardSurroundings.ownsExam sess e = true ∨
    if (id, sess.adminId) ∈ g.examPengawas then Http.hasRole sess.role kRoleOperator = true
    else SharesInstitution g sess e → (findSub (str "operator") sess.role).isSome = true →
      Http.hasRole sess.role kRoleOperator = true ∧ GuardSurroundings.likeOperator sess.role = true

/-- Both bulk requests of a session, on one store, with the database within reach. -/
structure BulkCall (g : GuardSurroundings) (sess : SessionData) (env : HandlerEnv)
    (world : ExamWorld) (ids : List Int32) (status : Bytes) (toggle delete : Http.Request) : Prop where
  notSuper : sess.isSuperAdmin = false
  verified : 0 < sess.adminId
  hasRow : ∃ me ∈ g.adminUsers, me.id = sess.adminId
  sameRow : ∀ me ∈ g.adminUsers, me.id = sess.adminId →
    me.role = sess.role ∧ me.instansi = sess.instansi
  reachable : g.scopePool.reached = true ∧ g.scopeAcquired = true ∧ g.scopeQueried = true
  sameStore : g.getById = world.store.getById
  nodup : (world.store.exams.map Exam.id).Nodup
  toggleIds : parseIntArray (jsonRawValue toggle.body (str "ids")) = some ids
  toggleStatus : jsonStringField toggle.body (str "status") = status
  isStatus : status = str "active" ∨ status = str "inactive"
  deleteIds : parseIntArray (jsonRawValue delete.body (str "ids")) = some ids
  r2Enabled : env.r2Enabled = true

/-- The store after `bulk_toggle_exams` has run behind the guard. -/
def storeAfterToggle (g : GuardSurroundings) (sess : SessionData) (world : ExamWorld)
    (req : Http.Request) : MemoryStore :=
  let fwd := withIdentity sess req
  ((bulkToggleExams (examBulkScopeOk g (bulkActor fwd)) fwd).runOn Op.performOn world).2.store

def storeAfterDelete (g : GuardSurroundings) (sess : SessionData) (env : HandlerEnv)
    (world : ExamWorld) (req : Http.Request) : MemoryStore :=
  let fwd := withIdentity sess req
  ((bulkDeleteExams (examBulkScopeOk g (bulkActor fwd)) env fwd).runOn Op.performOn world).2.store

/-- The two bulk requests act on an exam of their list exactly if the scope of the routes of one exam
admits the session. -/
def BulkAgrees (g : GuardSurroundings) (sess : SessionData) (env : HandlerEnv) (world : ExamWorld)
    (ids : List Int32) (status : Bytes) (toggle delete : Http.Request) : Prop :=
  ∀ id ∈ ids, ∀ e, world.store.getById id = some e →
    (storeAfterToggle g sess world toggle).getById id =
        some (if admitted g sess id then setStatus status e else e) ∧
      (storeAfterDelete g sess env world delete).getById id =
        if admitted g sess id then none else some e

section

variable {g : GuardSurroundings} {sess : SessionData} {env : HandlerEnv} {world : ExamWorld}
  {ids : List Int32} {status : Bytes} {toggle delete : Http.Request} {id : Int32} {e : Exam}

theorem bulkActor_withIdentity (sess : SessionData) (req : Http.Request) :
    bulkActor (withIdentity sess req) =
      { id := sess.adminId
        superAdmin := sess.isSuperAdmin
        isOperator := (findSub (str "operator") sess.role).isSome
        instansi := sess.instansi } := by
  have hnames : str "X-Internal-Admin-Id" ≠ str "X-Internal-Admin-Username" ∧
      str "X-Internal-Admin-Id" ≠ str "X-Internal-Admin-Role" ∧
      str "X-Internal-Admin-Id" ≠ str "X-Internal-Admin-Instansi" ∧
      str "X-Internal-Admin-Id" ≠ str "X-Internal-Admin-Super" ∧
      str "X-Internal-Admin-Role" ≠ str "X-Internal-Admin-Instansi" ∧
      str "X-Internal-Admin-Role" ≠ str "X-Internal-Admin-Super" ∧
      str "X-Internal-Admin-Instansi" ≠ str "X-Internal-Admin-Super" := by decide
  obtain ⟨h₁, h₂, h₃, h₄, h₅, h₆, h₇⟩ := hnames
  have hflag : decide ((if sess.isSuperAdmin then str "1" else str "0") = str "1") =
      sess.isSuperAdmin := by
    cases sess.isSuperAdmin <;> decide
  simp only [bulkActor, withIdentity, OrderedMap.insertAll_cons, OrderedMap.insertAll_nil,
    OrderedMap.find?_insert_self, OrderedMap.find?_insert_of_ne, ne_eq, h₁, h₂, h₃, h₄, h₅, h₆, h₇,
    not_false_eq_true, Option.bind_some, stoi_intText, Option.getD_some, Option.some.injEq, hflag]

theorem inOwnersInstitution_iff (h : BulkCall g sess env world ids status toggle delete) :
    (sess.instansi ≠ [] ∧ sess.instansi ≠ str "personal" ∧
      InOwnersInstitution g sess.adminId e.createdBy sess.instansi) ↔
        SharesInstitution g sess e := by
  constructor
  · rintro ⟨hne, hpersonal, me, -, owner, howner, hcreated, -, hmine, -, -, hsame, -, -⟩
    exact ⟨hne, hpersonal, owner, howner, hcreated, hsame.symm.trans hmine⟩
  · rintro ⟨hne, hpersonal, owner, howner, hcreated, hinstansi⟩
    obtain ⟨me, hme, hid⟩ := h.hasRow
    have hmine := (h.sameRow me hme hid).2
    refine ⟨hne, hpersonal, me, hme, owner, howner, hcreated, hid, hmine, ?_⟩
    rw [hmine, hinstansi]
    exact ⟨hne, hpersonal, rfl, hne, hpersonal⟩

theorem sameInstitution_iff (h : BulkCall g sess env world ids status toggle delete) :
    g.SameInstitution sess.adminId e.createdBy ↔
      GuardSurroundings.likeOperator sess.role = true ∧ SharesInstitution g sess e := by
  constructor
  · rintro ⟨me, hme, owner, howner, hcreated, hid, hlike, hne, hpersonal, hsame⟩
    obtain ⟨hrole, hmine⟩ := h.sameRow me hme hid
    rw [hrole] at hlike
    rw [hmine] at hne hpersonal hsame
    exact ⟨hlike, hne, hpersonal, owner, howner, hcreated, hsame.symm⟩
  · rintro ⟨hlike, hne, hpersonal, owner, howner, hcreated, hsame⟩
    obtain ⟨me, hme, hid⟩ := h.hasRow
    obtain ⟨hrole, hmine⟩ := h.sameRow me hme hid
    refine ⟨me, hme, owner, howner, hcreated, hid, hrole ▸ hlike, ?_⟩
    rw [hmine]
    exact ⟨hne, hpersonal, hsame.symm⟩

/-- What `exam_bulk_scope_ok` decides about a session that is no superadmin's. -/
theorem examBulkScopeOk_iff (h : BulkCall g sess env world ids status toggle delete)
    (req : Http.Request) :
    examBulkScopeOk g (bulkActor (withIdentity sess req)) id e = true ↔
      GuardSurroundings.ownsExam sess e = true ∨ (id, sess.adminId) ∈ g.examPengawas ∨
        (findSub (str "operator") sess.role).isSome = true ∧ SharesInstitution g sess e := by
  obtain ⟨hpool, hacquired, hqueried⟩ := h.reachable
  rw [← inOwnersInstitution_iff h, bulkActor_withIdentity]
  simp only [examBulkScopeOk, GuardSurroundings.ownsExam, h.notSuper, h.verified, hpool, hacquired,
    hqueried, Bool.false_or, Bool.or_eq_true, Bool.and_eq_true, decide_eq_true_eq, and_true, true_and,
    and_assoc]

/-- What the scope of the routes of one exam decides about it. -/
theorem admitted_iff (h : BulkCall g sess env world ids status toggle delete)
    (hexam : world.store.getById id = some e) :
    admitted g sess id = true ↔
      GuardSurroundings.ownsExam sess e = true ∨ Http.hasRole sess.role kRoleOperator = true ∧
        ((id, sess.adminId) ∈ g.examPengawas ∨
          GuardSurroundings.likeOperator sess.role = true ∧ SharesInstitution g sess e) := by
  obtain ⟨hpool, hacquired, hqueried⟩ := h.reachable
  have hid : GuardSurroundings.scopeExamId (examRequest id) = intText id.toInt := by
    simp [GuardSurroundings.scopeExamId, examRequest, OrderedMap.find?_insert_self]
  rw [← sameInstitution_iff h, admitted, GuardSurroundings.scopeOk]
  simp only [hid, intText_ne_nil, GuardSurroundings.ownerOk, h.notSuper, stoi_intText, h.sameStore,
    hexam, hpool, hacquired, hqueried, GuardSurroundings.accessQuery, decide_false, Bool.false_or,
    reduceCtorEq, Bool.or_eq_true, Bool.and_eq_true, decide_eq_true_eq, and_true]

/-- A role that `has_role` takes for the operator's mentions operators. -/
theorem mentions_of_hasRole (h : Http.hasRole sess.role kRoleOperator = true) :
    (findSub (str "operator") sess.role).isSome = true := by
  simp only [Http.hasRole, Bool.or_eq_true, decide_eq_true_eq] at h
  rcases h with hquoted | hlist | hname
  · obtain ⟨found, hfound⟩ := Option.isSome_iff_exists.mp hquoted
    obtain ⟨skip, hskip, after, hafter⟩ := exists_of_findSub hfound
    rw [hskip, ← hafter, kRoleOperator, List.append_assoc, List.append_assoc, ← List.append_assoc]
    exact isSome_findSub_append _ _ _
  · rw [hlist]
    decide
  · rw [hname]
    decide

theorem sameScope_iff (h : BulkCall g sess env world ids status toggle delete)
    (hexam : world.store.getById id = some e) (req : Http.Request) :
    examBulkScopeOk g (bulkActor (withIdentity sess req)) id e = admitted g sess id ↔
      SameScope g sess id e := by
  rw [Bool.eq_iff_iff, examBulkScopeOk_iff h, admitted_iff h hexam, SameScope]
  have hmentions : Http.hasRole sess.role kRoleOperator = true →
      (findSub (str "operator") sess.role).isSome = true := mentions_of_hasRole
  by_cases howns : GuardSurroundings.ownsExam sess e = true
  · simp only [howns, true_or]
  · by_cases hassigned : (id, sess.adminId) ∈ g.examPengawas
    · simp only [howns, hassigned, false_or, true_or, and_true, true_iff, if_true,
        Bool.false_eq_true]
    · simp only [howns, hassigned, false_or, if_false, Bool.false_eq_true]
      constructor
      · exact fun heq hshares hop => ⟨(heq.mp ⟨hop, hshares⟩).1, (heq.mp ⟨hop, hshares⟩).2.1⟩
      · intro hsame
        refine ⟨fun ⟨hop, hshares⟩ => ?_, fun ⟨hrole, _, hshares⟩ => ⟨hmentions hrole, hshares⟩⟩
        exact ⟨(hsame hshares hop).1, (hsame hshares hop).2, hshares⟩

theorem getById_storeAfterToggle (h : BulkCall g sess env world ids status toggle delete)
    (hid : id ∈ ids) (hexam : world.store.getById id = some e) :
    (storeAfterToggle g sess world toggle).getById id =
      some (if examBulkScopeOk g (bulkActor (withIdentity sess toggle)) id e then setStatus status e
        else e) := by
  have hbody : (withIdentity sess toggle).body = toggle.body := rfl
  have hstatus : ¬ (status ≠ str "active" ∧ status ≠ str "inactive") := fun hne =>
    h.isStatus.elim hne.1 hne.2
  rw [storeAfterToggle, bulkToggleExams]
  simp only [hbody, h.toggleIds, h.toggleStatus, Option.getD_some, if_neg (List.ne_nil_of_mem hid),
    if_neg hstatus]
  rw [Prog.runOn_bind]
  change (Prog.runOn Op.performOn (toggleEach _ _ _ _ _) world).2.store.getById id = _
  rw [getById_toggleEach (fun _ _ => rfl), hexam, Option.map_some]
  simp only [hid, true_and]

theorem getById_storeAfterDelete (h : BulkCall g sess env world ids status toggle delete)
    (hid : id ∈ ids) (hexam : world.store.getById id = some e) :
    (storeAfterDelete g sess env world delete).getById id =
      if examBulkScopeOk g (bulkActor (withIdentity sess delete)) id e then none else some e := by
  have hbody : (withIdentity sess delete).body = delete.body := rfl
  rw [storeAfterDelete, bulkDeleteExams]
  simp only [hbody, h.deleteIds, Option.getD_some, if_neg (List.ne_nil_of_mem hid), h.r2Enabled,
    Bool.not_true, Bool.false_eq_true, if_false]
  rw [Prog.runOn_bind]
  change (Prog.runOn Op.performOn (deleteEach _ _ _ _) world).2.store.getById id = _
  rw [getById_deleteEach _ _ _ h.nodup, hexam, Option.filter_some]
  cases examBulkScopeOk g (bulkActor (withIdentity sess delete)) id e <;> simp [hid]

end

/-- Bulk requests have the scope of single ones exactly where the two decisions coincide on the exams
of the list. -/
theorem bulkAgrees_iff {g : GuardSurroundings} {sess : SessionData} {env : HandlerEnv}
    {world : ExamWorld} {ids : List Int32} {status : Bytes} {toggle delete : Http.Request}
    (h : BulkCall g sess env world ids status toggle delete) :
    BulkAgrees g sess env world ids status toggle delete ↔
      ∀ id ∈ ids, ∀ e, world.store.getById id = some e → SameScope g sess id e := by
  refine forall₂_congr fun id hid => forall₂_congr fun e hexam => ?_
  rw [getById_storeAfterToggle h hid hexam, getById_storeAfterDelete h hid hexam]
  constructor
  · rintro ⟨-, hdelete⟩
    refine (sameScope_iff h hexam delete).mp ?_
    cases hbulk : examBulkScopeOk g (bulkActor (withIdentity sess delete)) id e <;>
      cases hsingle : admitted g sess id <;> simp [hbulk, hsingle] at hdelete ⊢
  · intro hsame
    rw [(sameScope_iff h hexam toggle).mpr hsame, (sameScope_iff h hexam delete).mpr hsame]
    exact ⟨rfl, rfl⟩

/-! ### A supervisor that is no operator -/

/-- A supervisor assigned to the exam 7, which a teacher has created. -/
def supervisor (role : Bytes) : SessionData where
  adminId := 4
  role := role
  instansi := str "SMA 1"

def supervisorSurroundings (role : Bytes) (assigned : List (Int32 × Int32)) : GuardSurroundings where
  verifySessionCookie := fun _ _ => none
  getById := fun id => if id = 7 then some openExam else none
  adminUsers :=
    [{ id := 4, status := str "active", role := role, instansi := str "SMA 1" },
     { id := 3, status := str "active", role := str "[\"guru\"]", instansi := str "SMA 1" }]
  examPengawas := assigned
where
  openExam : Exam := { id := 7, createdBy := 3, status := str "active" }

def supervisorWorld : ExamWorld where
  exams := ⟨⟨[supervisorSurroundings.openExam], 8, ∅⟩, fun _ => none⟩
  outside := fun _ o =>
    match o with
    | .getById _ | .update _ _ => none
    | .listAll => []
    | .remove _ | .claimToken _ | .claimTokenIfAbsent _ _ | .acquire | .upload _ _ _ => false
    | .unclaimToken _ => ()
    | .examQuery _ _ _ | .otherQuery _ _ | .exportSubmissions _ => none

def bulkRequest (body : Bytes) : Http.Request := { method := str "POST", body }

def toggleBody : Bytes := str "\x7b\"ids\":[7],\"status\":\"inactive\"\x7d"

def deleteBody : Bytes := str "\x7b\"ids\":[7]\x7d"

theorem supervisorCall (role : Bytes) (assigned : List (Int32 × Int32)) :
    BulkCall (supervisorSurroundings role assigned) (supervisor role) {} supervisorWorld [7]
      (str "inactive") (bulkRequest toggleBody) (bulkRequest deleteBody) where
  notSuper := rfl
  verified := (by decide : (0 : Int32) < 4)
  hasRow := ⟨_, List.mem_cons_self, rfl⟩
  sameRow := by
    rintro me hme hid
    rcases List.mem_cons.mp hme with rfl | hme
    · exact ⟨rfl, rfl⟩
    · rw [List.mem_singleton.mp hme] at hid
      cases hid
  reachable := ⟨rfl, rfl, rfl⟩
  sameStore := by
    funext id
    by_cases hid : id = 7
    · subst hid
      rfl
    · have hne : ¬ supervisorSurroundings.openExam.id = id := fun h => hid h.symm
      simp [supervisorSurroundings, supervisorWorld, ExamWorld.store, MemoryStore.getById, hid, hne]
  nodup := List.nodup_singleton 7
  toggleIds := by decide +kernel
  toggleStatus := by decide +kernel
  isStatus := .inr rfl
  deleteIds := by decide +kernel
  r2Enabled := rfl

/-- The supervisor is an operator as well. -/
theorem bulkAgrees_iff_operator :
    BulkAgrees (supervisorSurroundings (str "[\"pengawas\",\"operator\"]") [(7, 4)])
        (supervisor (str "[\"pengawas\",\"operator\"]")) {} supervisorWorld [7] (str "inactive")
        (bulkRequest toggleBody) (bulkRequest deleteBody) ↔
      ∀ id ∈ [7], ∀ e, supervisorWorld.store.getById id = some e →
        SameScope (supervisorSurroundings (str "[\"pengawas\",\"operator\"]") [(7, 4)])
          (supervisor (str "[\"pengawas\",\"operator\"]")) id e :=
  bulkAgrees_iff (supervisorCall _ _)

theorem not_bulkAgrees :
    ¬ ∀ g sess env world ids status toggle delete,
      BulkCall g sess env world ids status toggle delete →
        BulkAgrees g sess env world ids status toggle delete := by
  intro h
  have hagrees := h _ _ _ _ _ _ _ _ (supervisorCall (str "[\"pengawas\"]") [(7, 4)]) 7
    List.mem_cons_self supervisorSurroundings.openExam rfl
  have hremoved := hagrees.2
  rw [getById_storeAfterDelete (supervisorCall _ _) List.mem_cons_self rfl] at hremoved
  exact absurd hremoved (by decide +kernel)

end ExamVan.Admin
