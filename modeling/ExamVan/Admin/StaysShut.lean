import ExamVan.Admin.OneExam
import ExamVan.Admin.Tombstones

/-!
# Every run keeps tombstones

The exams of the store, what each thread still has to do to them, and what a join has copied keep
their tombstones in every run on the memory store. In the database the status and the tombstone are
written by one statement, from one copy, so the row keeps them too.
-/

namespace ExamVan.Admin

open ByteString Models Api Store

variable {clock : Clock} {read : Bytes → Except Http.Response (QuestionsForm × Option (List Int32))}
  {w w' : ExamWorld} {o : Op} {e : Exam}

theorem allShut_of_eq {s s' : MemoryStore} (hs : AllShut s) (heq : s'.exams = s.exams) : AllShut s' :=
  allShut_of_subset hs fun _ he => heq ▸ he

theorem allShut_performOn (hs : AllShut w.store) (ho : o.Lawful) : AllShut (o.performOn w).2.store := by
  cases o with
  | update id mutate => exact allShut_update hs ho
  | remove id => exact allShut_remove hs
  | claimToken token =>
      refine allShut_of_eq hs ?_
      exact exams_claimed (w.store.claimToken_cases token)
  | claimTokenIfAbsent token id =>
      refine allShut_of_eq hs ?_
      exact exams_claimed (w.store.claimTokenIfAbsent_cases token id)
  | _ => exact hs

theorem allShut_create {o : CreateOp} (hs : AllShut w.store) (ho : o.AddsShut) :
    AllShut (o.perform w.exams).2.exams := by
  cases o with
  | reserve key fingerprint =>
      refine allShut_of_eq hs ?_
      simp only [CreateOp.perform]
      obtain ⟨-, h⟩ | ⟨_, -, h⟩ | h := w.exams.reserve_cases key fingerprint
      · rw [h]
        rfl
      · rw [h]
        rfl
      · rw [h]
        rfl
  | claimToken token =>
      refine allShut_of_eq hs ?_
      exact exams_claimed (w.store.claimToken_cases token)
  | add e => exact allShut_add hs ho
  | _ => exact hs

/-- The call is a request to start an exam. -/
def AdminCall.IsStart : AdminCall → Prop
  | .updateExam _ req => actionOf req = str "start"
  | _ => False

/-- What is left to do for a thread keeps tombstones. -/
def ExamThread.Keeps : ExamThread → Prop
  | .admin t => t.program.All Op.Lawful ∧
      (t.input.IsStart → t.program.All fun o => ∃ id now, o = .update id (Change.start.apply now))
  | .create t => t.program.All CreateOp.AddsShut
  | .join t => t.Refuses

theorem keeps_start (call : ExamCall) : (call.start clock read).Keeps := by
  cases call with
  | admin call =>
      refine ⟨lawful_program clock read call, fun hstart => ?_⟩
      cases call with
      | updateExam env req =>
          refine Prog.All.bind ((updates_start env hstart).mono fun o ho => ?_) fun _ => trivial
          obtain ⟨id, rfl⟩ := ho
          exact ⟨id, env.now, rfl⟩
      | _ => exact hstart.elim
  | create env req => exact addsShut_createExam env req
  | join io token => exact refuses_start io token

theorem keeps_next {t t' : ExamThread} (ht : t.Keeps) (hs : AllShut w.store)
    (hnext : t.next? clock w = some (t', w')) : t'.Keeps ∧ AllShut w'.store := by
  cases t with
  | admin t =>
      obtain ⟨⟨t₁, w₁⟩, hmoved, hresult⟩ := Option.map_eq_some_iff.mp hnext
      obtain ⟨rfl, rfl⟩ := Prod.mk.inj hresult
      obtain ⟨o, next, hprogram, rfl, rfl⟩ := Job.next?_eq_some hmoved
      obtain ⟨hlawful, hstart⟩ := ht
      rw [hprogram] at hlawful hstart
      exact ⟨⟨hlawful.2 _, fun h => (hstart h).2 _⟩, allShut_performOn hs hlawful.1⟩
  | create t =>
      obtain ⟨⟨t₁, w₁⟩, hmoved, hresult⟩ := Option.map_eq_some_iff.mp hnext
      obtain ⟨rfl, rfl⟩ := Prod.mk.inj hresult
      obtain ⟨o, next, hprogram, rfl, rfl⟩ := Job.next?_eq_some hmoved
      have hadds : t.program.All CreateOp.AddsShut := ht
      rw [hprogram] at hadds
      exact ⟨hadds.2 _, allShut_create hs hadds.1⟩
  | join t =>
      obtain ⟨⟨t₁, s₁⟩, hmoved, hresult⟩ := Option.map_eq_some_iff.mp hnext
      obtain ⟨rfl, rfl⟩ := Prod.mk.inj hresult
      exact Join.Refuses.next ht hs hmoved

theorem keeps_invariant (outside : Nat → (o : Op) → Ans o) :
    (lifecycle clock read outside).Invariant System.anyStep fun s =>
      AllShut s.world.store ∧ ∀ t ∈ s.threads, t.Keeps :=
  Threads.invariant (fun _ he => absurd he List.not_mem_nil) (fun call _ => keeps_start call)
    fun hs ht hnext =>
      have h := keeps_next ht hs hnext
      ⟨h.2, h.1, fun _ hu => hu⟩

/-! ### A second start -/

theorem getById_start {s : MemoryStore} {id m : Int32} (now : Bytes) (hfind : s.getById m = some e)
    (hstarted : started e = true) :
    (s.update id (Change.start.apply now)).2.getById m = some e := by
  have hid : ∀ e, (Change.start.apply now e).id = e.id := fun e => by
    simp only [Change.apply]
    split <;> rfl
  by_cases hm : m = id
  · subst hm
    rw [MemoryStore.getById_update_self hid, hfind, Option.map_some]
    simp only [Change.apply, hstarted, if_true]
  · rw [MemoryStore.getById_update_of_ne hm hid]
    exact hfind

/-! ### The database -/

/-- The updates are those of the handlers and the job. -/
def LawfulUpdate : Postgres.Action → Prop
  | .select _ m _ => ExamMutator m.apply
  | _ => True

/-- The row and all copies of it that updates work on. -/
def RowShut (s : Postgres.State) : Prop :=
  Shut s.row ∧ ∀ p m read, s.inFlight p = some (m, read) → ExamMutator m.apply ∧ Shut read

theorem inFlight_setInFlight {s : Postgres.State} {p q : Nat} {f : Option (Postgres.Mutator × Exam)}
    {copy : Postgres.Mutator × Exam} (h : (s.setInFlight p f).inFlight q = some copy) :
    f = some copy ∨ s.inFlight q = some copy := by
  change Function.update s.inFlight p f q = some copy at h
  by_cases hqp : q = p
  · subst hqp
    rw [Function.update_self] at h
    exact Or.inl h
  · rw [Function.update_of_ne hqp] at h
    exact Or.inr h

theorem rowShut_statement {s : Postgres.State} {m : Postgres.Mutator} (ok : Bool) (hs : RowShut s)
    (hm : Shut (m.apply s.row)) : RowShut (s.statement m ok) := by
  cases ok with
  | false => exact hs
  | true => exact ⟨hm, hs.2⟩

theorem rowShut_invariant {parse : Bytes → Option Int} {format : Int → Bytes} {row : Exam}
    (hrow : Shut row) :
    (Postgres.examRow parse format row).Invariant (fun _ a => LawfulUpdate a) RowShut where
  initial := ⟨hrow, fun p m read h => by cases h⟩
  step := by
    intro s s' a hs hlawful hstep
    cases a with
    | select p m ok =>
        simp only [Postgres.examRow, Postgres.step?] at hstep
        split at hstep
        · cases hstep
        · obtain rfl := Option.some.inj hstep
          cases ok with
          | false => exact hs
          | true =>
              refine ⟨hs.1, fun q m' read hq => ?_⟩
              rcases inFlight_setInFlight hq with hnew | hold
              · obtain ⟨rfl, rfl⟩ := Prod.mk.inj (Option.some.inj hnew)
                exact ⟨hlawful, hs.1⟩
              · exact hs.2 q m' read hold
    | rewrite p ok =>
        simp only [Postgres.examRow, Postgres.step?] at hstep
        split at hstep
        · cases hstep
        next m copy hcopy =>
          obtain rfl := Option.some.inj hstep
          have hleft : ∀ q m' read, (s.setInFlight p none).inFlight q = some (m', read) →
              ExamMutator m'.apply ∧ Shut read := fun q m' read hq =>
            hs.2 q m' read ((inFlight_setInFlight hq).resolve_left (by simp))
          cases ok with
          | false => exact ⟨hs.1, hleft⟩
          | true =>
              obtain ⟨hm, hread⟩ := hs.2 p m copy hcopy
              -- the statement writes the status and the tombstone of one copy
              exact ⟨(hm.shut hread).of_eq rfl rfl, hleft⟩
    | rotate | delegate | autoApprove =>
        cases hstep
        exact rowShut_statement _ hs (hs.1.of_eq rfl rfl)

/-! ### The exam stays shut -/

theorem submitExam_of_tombstone {env : Api.Surroundings} {req : Api.Request} {w : Api.World}
    {examId : Int32} (hid : stoi (fieldOr req.params (str "exam_id") []) = some examId)
    (hfind : env.getById examId = some e) (hshut : Shut e) (hset : e.tombstonedAt ≠ none) :
    submitExam env req w = (notStarted, w) := by
  have hstarted : examStarted e = false := by
    rw [examStarted, hshut.not_isActive hset, Bool.false_and]
  have hcheck : checkSubmit env req = .error notStarted := by
    unfold checkSubmit
    split
    next hnil =>
      rw [hnil] at hid
      cases hid
    · simp only [hid, hfind, hstarted]
      rfl
  unfold submitExam
  rw [hcheck]

/-- In every run, an exam with a tombstone is inactive, whoever joins it or submits to it is
refused, and a start leaves every exam as it is that is started already. -/
theorem tombstoned_stays_shut {outside : Nat → (o : Op) → Ans o}
    {s : Threads ExamThread ExamWorld}
    (hs : (lifecycle clock read outside).Reachable System.anyStep s) :
    (∀ e ∈ s.world.store.exams, e.tombstonedAt ≠ none → e.status = str "inactive") ∧
      (∀ t r e, .join t ∈ s.threads → t.progress = .done r → t.found = some e →
        e.tombstonedAt ≠ none → r = .response notStarted) ∧
      (∀ (env : Api.Surroundings) (req : Api.Request) (w : Api.World) examId e,
        env.getById = s.world.store.getById →
        stoi (fieldOr req.params (str "exam_id") []) = some examId →
        s.world.store.getById examId = some e → e.tombstonedAt ≠ none →
          submitExam env req w = (notStarted, w)) ∧
      (∀ i t s', s.threads[i]? = some (.admin t) → t.input.IsStart →
        (lifecycle clock read outside).step? s (.step i) = some s' →
          ∀ id e, s.world.store.getById id = some e → started e = true →
            s'.world.store.getById id = some e) ∧
      ∀ (parse : Bytes → Option Int) (format : Int → Bytes) (row : Exam) (p : Postgres.State),
        Shut row → (Postgres.examRow parse format row).Reachable (fun _ a => LawfulUpdate a) p →
          p.row.tombstonedAt ≠ none → p.row.status = str "inactive" := by
  obtain ⟨hshut, hkeeps⟩ := hs.holds (keeps_invariant outside)
  refine ⟨hshut, fun t r e ht hdone hfound hset => ?_, fun env req w examId e hget hid hfind hset => ?_,
    fun i t s' ht hstart hstep id e hfind hstarted => ?_,
    fun parse format row p hrow hp => (hp.holds (rowShut_invariant hrow)).1⟩
  · have hrefuses : t.Refuses := hkeeps _ ht
    rw [Join.Refuses, hdone] at hrefuses
    exact hrefuses e hfound hset
  · refine submitExam_of_tombstone hid (hget ▸ hfind) (hshut e ?_) hset
    exact List.mem_of_find?_eq_some hfind
  · obtain ⟨u, u', w', hu, hnext, rfl⟩ := Threads.step?_step hstep
    obtain rfl := Option.some.inj (ht.symm.trans hu)
    obtain ⟨⟨t₁, w₁⟩, hmoved, hresult⟩ := Option.map_eq_some_iff.mp hnext
    obtain ⟨rfl, rfl⟩ := Prod.mk.inj hresult
    obtain ⟨o, next, hprogram, rfl, rfl⟩ := Job.next?_eq_some hmoved
    have honly := (hkeeps _ (List.mem_of_getElem? ht)).2 hstart
    rw [hprogram] at honly
    obtain ⟨id', now, rfl⟩ := honly.1
    exact getById_start now hfind hstarted

/-- No database, and no upload that succeeds. -/
def outsideClosed (_ : Nat) : (o : Op) → Ans o
  | .listAll => []
  | .getById _ | .update _ _ | .examQuery _ _ _ | .otherQuery _ _ | .exportSubmissions _ => none
  | .remove _ | .claimToken _ | .claimTokenIfAbsent _ _ | .acquire | .upload _ _ _ => false
  | .unclaimToken _ => ()

def createRequest : Http.Request where
  method := str "POST"
  path := str "/admin/api/exams"
  body := str "name=UTS&file_path=uts.pdf&custom_token=AAAAAAAA"

def startRequest : Http.Request where
  method := str "POST"
  path := str "/admin/api/exams/1/start"
  params := OrderedMap.empty.insert (str "exam_id") (str "1")

/-- An exam is created, started and expires, is started once more, and a student joins. -/
def expiredRun : List (Threads.Action ExamCall) :=
  let late := (Jobs.defaultActiveDays + 1) * 24 * 3600 * second
  [.arrive (.create { now := epochClock.format 0 } createRequest), .step 0, .step 0, .step 0,
    .arrive (.admin (.updateExam { now := epochClock.format 0 } startRequest)), .step 1,
    .arrive (.admin (.runExpiryJob true late)), .step 2, .step 2,
    .arrive (.admin (.updateExam { now := epochClock.format late } startRequest)), .step 3,
    .arrive (.join { now := late } (str "AAAAAAAA")), .step 4]

theorem tombstoned_stays_shut_expired :
    let s := (lifecycle epochClock (fun _ => .error notFound) outsideClosed).after expiredRun
    s.world.store.exams ≠ [] ∧
      (∀ e ∈ s.world.store.exams, e.tombstonedAt ≠ none ∧ e.status = str "inactive") ∧
      ∀ t r e, .join t ∈ s.threads → t.progress = .done r → t.found = some e →
        e.tombstonedAt ≠ none → r = .response notStarted := by
  intro s
  have hs : (lifecycle epochClock (fun _ => .error notFound) outsideClosed).Reachable
      System.anyStep s :=
    System.reachable_after (by decide +kernel) (System.guarded_anyStep _ _)
  have hset : ∀ e ∈ s.world.store.exams, e.tombstonedAt ≠ none := by decide +kernel
  obtain ⟨hinactive, hjoin, -⟩ := tombstoned_stays_shut hs
  exact ⟨by decide +kernel, fun e he => ⟨hset e he, hinactive e he (hset e he)⟩, hjoin⟩

end ExamVan.Admin
