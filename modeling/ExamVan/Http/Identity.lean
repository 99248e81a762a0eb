import ExamVan.Http.AdminApi

/-!
# The identity that handlers read back

The guard writes the session's identity under five header names, next to whatever the client sent.
Header names keep the client's letters, so a spelling that differs from the guard's own is another
key of the map, and the readers that fold the letters see both. Which of the two they take depends
on the order of the keys.
-/

namespace ExamVan.Http

open ByteString Queue

/-! ### The readers -/

def lower (s : Bytes) : Bytes := s.map tolower

/-- `session_admin_id_from`: the first value under a spelling of the name that is a number. -/
def sessionAdminIdFrom (req : Request) : Int32 :=
  (req.headers.entries.findSome? fun kv =>
    if lower kv.1 = str "x-internal-admin-id" then stoi kv.2 else none).getD 0

structure AuditIdentity where
  userId : Int32 := 0
  username : Bytes := []
  deriving DecidableEq

/-- `audit_identity_from`: the last number and the last username. -/
def auditIdentityFrom (req : Request) : AuditIdentity :=
  req.headers.entries.foldl (fun id kv =>
    if lower kv.1 = str "x-internal-admin-id" then
      match stoi kv.2 with
      | none => id
      | some n => { id with userId := n }
    else if lower kv.1 = str "x-internal-admin-username" then { id with username := kv.2 }
    else id) {}

def containsSuperadmin (role : Bytes) : Bool := (findSub (str "superadmin") role).isSome

/-- The scan for a superadmin's role in `create_user` and `update_user`. -/
def callerSuper (req : Request) : Bool :=
  req.headers.entries.any fun kv =>
    lower kv.1 = str "x-internal-admin-role" && containsSuperadmin kv.2

/-- The loop of `create_exam` that sets `created_by`. -/
def createdByFrom (req : Request) : Int32 :=
  match req.headers.entries.find? fun kv =>
      lower kv.1 = (str "X-Internal-Admin-Id").map tolower with
  | none => 0
  | some kv => (stoi kv.2).getD 0

/-- Every reader gets what the session says. -/
structure ReadsSession (sess : SessionData) (req : Request) : Prop where
  sessionAdminId : sessionAdminIdFrom req = sess.adminId
  auditIdentity : auditIdentityFrom req = ⟨sess.adminId, sess.username⟩
  callerSuper : callerSuper req = containsSuperadmin sess.role
  createdBy : createdByFrom req = sess.adminId

/-! ### Other spellings -/

/-- The values that the client sent under other spellings of `name` that sort before it. -/
def spelledBefore (name : Bytes) (headers : StringMap) : List Bytes :=
  (headers.entries.filter fun kv => lower kv.1 = lower name && kv.1 < name).map Prod.snd

/-- The same, for the spellings that sort after it. -/
def spelledAfter (name : Bytes) (headers : StringMap) : List Bytes :=
  (headers.entries.filter fun kv => lower kv.1 = lower name && name < kv.1).map Prod.snd

/-- The client's own spellings of the internal headers make no difference to the readers. -/
structure Unforged (sess : SessionData) (headers : StringMap) : Prop where
  idBefore : ∀ v ∈ (spelledBefore (str "X-Internal-Admin-Id") headers).head?,
    stoi v = some sess.adminId
  idAfter : ∀ n ∈ ((spelledAfter (str "X-Internal-Admin-Id") headers).filterMap stoi).getLast?,
    n = sess.adminId
  username : ∀ v ∈ (spelledAfter (str "X-Internal-Admin-Username") headers).getLast?,
    v = sess.username
  role : ∀ v ∈ spelledBefore (str "X-Internal-Admin-Role") headers ++
      spelledAfter (str "X-Internal-Admin-Role") headers,
    containsSuperadmin v = true → containsSuperadmin sess.role = true

/-- The values under the spellings of `name`, in key order. -/
def spelled (name : Bytes) (headers : StringMap) : List Bytes :=
  (headers.entries.filter fun kv => lower kv.1 = lower name).map Prod.snd

theorem spelled_insert_self (name value : Bytes) (headers : StringMap) :
    spelled name (headers.insert name value) =
      spelledBefore name headers ++ value :: spelledAfter name headers := by
  rw [spelled, OrderedMap.insert,
    OrderedMap.filter_insertEntry (p := fun k => lower k = lower name) headers.sorted (by simp)]
  simp only [spelledBefore, spelledAfter, List.map_append, List.map_cons]
  congr!

/-- The five internal names are different even when the letters are folded. -/
theorem internalNames_pairwise :
    [str "X-Internal-Admin-Id", str "X-Internal-Admin-Username", str "X-Internal-Admin-Role",
      str "X-Internal-Admin-Instansi", str "X-Internal-Admin-Super"].Pairwise
      fun a b => lower b ≠ lower a := by
  decide

section

variable {name other value : Bytes} {headers : StringMap}

theorem spelled_insert_of_ne (h : lower other ≠ lower name) :
    spelled name (headers.insert other value) = spelled name headers := by
  rw [spelled, OrderedMap.insert,
    OrderedMap.filter_insertEntry_of_not (p := fun k => lower k = lower name) (by simpa using h),
    spelled]

theorem spelledBefore_insert_of_ne (h : lower other ≠ lower name) :
    spelledBefore name (headers.insert other value) = spelledBefore name headers := by
  rw [spelledBefore, OrderedMap.insert, OrderedMap.filter_insertEntry_of_not
    (p := fun k => lower k = lower name && k < name) (by simp [h]), spelledBefore]

theorem spelledAfter_insert_of_ne (h : lower other ≠ lower name) :
    spelledAfter name (headers.insert other value) = spelledAfter name headers := by
  rw [spelledAfter, OrderedMap.insert, OrderedMap.filter_insertEntry_of_not
    (p := fun k => lower k = lower name && name < k) (by simp [h]), spelledAfter]

theorem spelled_insertAll_of_ne {entries : List (Bytes × Bytes)}
    (h : ∀ e ∈ entries, lower e.1 ≠ lower name) :
    spelled name (headers.insertAll entries) = spelled name headers := by
  induction entries generalizing headers with
  | nil => rfl
  | cons e entries ih =>
      obtain ⟨he, hrest⟩ := List.forall_mem_cons.mp h
      rw [OrderedMap.insertAll_cons, ih hrest, spelled_insert_of_ne he]

/-- A value written under one of several names stands between the client's own spellings of it. -/
theorem spelled_insertAll {entries : List (Bytes × Bytes)}
    (h : (entries.map Prod.fst).Pairwise fun a b => lower b ≠ lower a)
    (hmem : (name, value) ∈ entries) :
    spelled name (headers.insertAll entries) =
      spelledBefore name headers ++ value :: spelledAfter name headers := by
  induction entries generalizing headers with
  | nil => cases hmem
  | cons e entries ih =>
      obtain ⟨he, hrest⟩ := List.pairwise_cons.mp h
      replace he := List.forall_mem_map.mp he
      rw [OrderedMap.insertAll_cons]
      rcases List.mem_cons.mp hmem with rfl | hmem
      · rw [spelled_insertAll_of_ne he, spelled_insert_self]
      · have hne : lower e.1 ≠ lower name := (he _ hmem).symm
        rw [ih hrest hmem, spelledBefore_insert_of_ne hne, spelledAfter_insert_of_ne hne]

end

section

variable {sess : SessionData} {req : Request}

theorem spelled_withIdentity_id :
    spelled (str "X-Internal-Admin-Id") (withIdentity sess req).headers =
      spelledBefore (str "X-Internal-Admin-Id") req.headers ++
        intText sess.adminId.toInt :: spelledAfter (str "X-Internal-Admin-Id") req.headers :=
  spelled_insertAll internalNames_pairwise (by simp)

theorem spelled_withIdentity_username :
    spelled (str "X-Internal-Admin-Username") (withIdentity sess req).headers =
      spelledBefore (str "X-Internal-Admin-Username") req.headers ++
        sess.username :: spelledAfter (str "X-Internal-Admin-Username") req.headers :=
  spelled_insertAll internalNames_pairwise (by simp)

theorem spelled_withIdentity_role :
    spelled (str "X-Internal-Admin-Role") (withIdentity sess req).headers =
      spelledBefore (str "X-Internal-Admin-Role") req.headers ++
        sess.role :: spelledAfter (str "X-Internal-Admin-Role") req.headers :=
  spelled_insertAll internalNames_pairwise (by simp)

/-! ### The readers, by the values under a name -/

theorem findSome?_spelled {β : Type*} (f : Bytes → Option β) (name : Bytes) (headers : StringMap) :
    headers.entries.findSome? (fun kv => if lower kv.1 = lower name then f kv.2 else none) =
      (spelled name headers).findSome? f := by
  unfold spelled
  induction headers.entries with
  | nil => rfl
  | cons kv rest ih =>
      by_cases hkv : lower kv.1 = lower name <;> simp [List.findSome?_cons, hkv, ih]

theorem sessionAdminIdFrom_eq (req : Request) :
    sessionAdminIdFrom req =
      (((spelled (str "X-Internal-Admin-Id") req.headers).filterMap stoi).head?).getD 0 := by
  have hname : str "x-internal-admin-id" = lower (str "X-Internal-Admin-Id") := by decide
  rw [sessionAdminIdFrom, hname, findSome?_spelled, List.head?_filterMap]

theorem callerSuper_eq (req : Request) :
    callerSuper req = (spelled (str "X-Internal-Admin-Role") req.headers).any containsSuperadmin := by
  have hname : str "x-internal-admin-role" = lower (str "X-Internal-Admin-Role") := by decide
  rw [callerSuper, hname, spelled, List.any_map, List.any_filter]
  rfl

theorem createdByFrom_eq (req : Request) :
    createdByFrom req =
      ((spelled (str "X-Internal-Admin-Id") req.headers).head?.bind stoi).getD 0 := by
  rw [createdByFrom, spelled, List.head?_map, List.head?_filter]
  change (match req.headers.entries.find? fun kv => decide (lower kv.1 = lower _) with
    | none => 0
    | some kv => (stoi kv.2).getD 0) = _
  cases req.headers.entries.find? fun kv =>
    decide (lower kv.1 = lower (str "X-Internal-Admin-Id")) <;> rfl

theorem auditIdentityFrom_eq (req : Request) :
    auditIdentityFrom req =
      ⟨(((spelled (str "X-Internal-Admin-Id") req.headers).filterMap stoi).getLast?).getD 0,
        ((spelled (str "X-Internal-Admin-Username") req.headers).getLast?).getD []⟩ := by
  have hid : str "x-internal-admin-id" = lower (str "X-Internal-Admin-Id") := by decide
  have huser : str "x-internal-admin-username" = lower (str "X-Internal-Admin-Username") := by decide
  have hne : lower (str "X-Internal-Admin-Id") ≠ lower (str "X-Internal-Admin-Username") := by decide
  unfold auditIdentityFrom spelled
  rw [hid, huser]
  -- the loop keeps what it has read last, so the statement is about any start
  suffices h : ∀ (entries : List (Bytes × Bytes)) (start : AuditIdentity),
      entries.foldl _ start =
        ⟨(((entries.filter fun kv => lower kv.1 = lower (str "X-Internal-Admin-Id")).map
            Prod.snd).filterMap stoi).getLast?.getD start.userId,
          ((entries.filter fun kv => lower kv.1 = lower (str "X-Internal-Admin-Username")).map
            Prod.snd).getLast?.getD start.username⟩ from h _ _
  intro entries
  induction entries with
  | nil => intro start; rfl
  | cons kv rest ih =>
      intro start
      rw [List.foldl_cons, ih]
      by_cases hkv : lower kv.1 = lower (str "X-Internal-Admin-Id")
      · cases hread : stoi kv.2 with
        | none => simp [hkv, hread, hne]
        | some n => simp [hkv, hread, hne, List.getLast?_cons]
      · by_cases hkv' : lower kv.1 = lower (str "X-Internal-Admin-Username")
        · simp [hkv', List.getLast?_cons, hne.symm]
        · simp [hkv, hkv']

/-! ### When the identity is the session's -/

theorem head?_append_cons {α : Type*} (before after : List α) (x : α) :
    (before ++ x :: after).head? = some (before.head?.getD x) := by
  cases before <;> rfl

theorem getLast?_append_cons {α : Type*} (before after : List α) (x : α) :
    (before ++ x :: after).getLast? = some (after.getLast?.getD x) := by
  simp [List.getLast?_cons]

theorem getD_eq_self_iff {α : Type*} {o : Option α} {x : α} :
    o.getD x = x ↔ ∀ y ∈ o, y = x := by
  cases o <;> simp

theorem sessionAdminIdFrom_withIdentity :
    sessionAdminIdFrom (withIdentity sess req) = sess.adminId ↔
      ∀ n ∈ ((spelledBefore (str "X-Internal-Admin-Id") req.headers).filterMap stoi).head?,
        n = sess.adminId := by
  rw [sessionAdminIdFrom_eq, spelled_withIdentity_id, List.filterMap_append,
    List.filterMap_cons_some (stoi_intText _), head?_append_cons, Option.getD_some,
    getD_eq_self_iff]

theorem createdByFrom_withIdentity (hpos : 0 < sess.adminId) :
    createdByFrom (withIdentity sess req) = sess.adminId ↔
      ∀ v ∈ (spelledBefore (str "X-Internal-Admin-Id") req.headers).head?,
        stoi v = some sess.adminId := by
  have hne : (0 : Int32) ≠ sess.adminId := by
    rintro heq
    exact Int32.lt_irrefl (heq ▸ hpos)
  rw [createdByFrom_eq, spelled_withIdentity_id, head?_append_cons]
  cases (spelledBefore (str "X-Internal-Admin-Id") req.headers).head? with
  | none => simp
  | some v => cases hread : stoi v <;> simp [hread, hne]

theorem auditIdentityFrom_withIdentity :
    auditIdentityFrom (withIdentity sess req) = ⟨sess.adminId, sess.username⟩ ↔
      (∀ n ∈ ((spelledAfter (str "X-Internal-Admin-Id") req.headers).filterMap stoi).getLast?,
        n = sess.adminId) ∧
      ∀ v ∈ (spelledAfter (str "X-Internal-Admin-Username") req.headers).getLast?,
        v = sess.username := by
  rw [auditIdentityFrom_eq, spelled_withIdentity_id, spelled_withIdentity_username,
    List.filterMap_append, List.filterMap_cons_some (stoi_intText _), getLast?_append_cons,
    getLast?_append_cons, Option.getD_some, Option.getD_some, AuditIdentity.mk.injEq,
    getD_eq_self_iff, getD_eq_self_iff]

theorem callerSuper_withIdentity :
    callerSuper (withIdentity sess req) = containsSuperadmin sess.role ↔
      ∀ v ∈ spelledBefore (str "X-Internal-Admin-Role") req.headers ++
          spelledAfter (str "X-Internal-Admin-Role") req.headers,
        containsSuperadmin v = true → containsSuperadmin sess.role = true := by
  rw [callerSuper_eq, spelled_withIdentity_role, List.any_append, List.any_cons]
  cases hrole : containsSuperadmin sess.role with
  | true => simp
  | false => simp [or_imp, forall_and]

end

/-! ### A forged role -/

def teacher : SessionData where
  username := str "budi"
  role := str "[\"guru\"]"
  instansi := str "sdn-1"
  adminId := 7

/-- A teacher's session, behind any cookie. -/
def teacherSurroundings : GuardSurroundings where
  verifySessionCookie _ _ := some teacher
  adminUsers := [⟨7, str "active", str "[\"guru\"]", str "sdn-1"⟩]

def teacherRequest (headers : List (Bytes × Bytes)) : Request where
  method := str "GET"
  path := str "/admin/api/users"
  headers := OrderedMap.empty.insertAll ((str "Cookie", str "s") :: headers)

end ExamVan.Http
