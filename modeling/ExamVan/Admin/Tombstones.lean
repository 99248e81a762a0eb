import ExamVan.Admin.Lifecycle
import ExamVan.Api.Submit
import ExamVan.Store.Postgres

/-!
# A tombstone keeps an exam shut

Whatever changes an exam either leaves its status and its tombstone alone, or makes it inactive, or
takes the tombstone away. So an exam with a tombstone is inactive, and whoever asks for an active
exam is refused.
-/

namespace ExamVan.Admin

open ByteString Models Api Store

/-- With a tombstone, the exam is inactive. -/
def Shut (e : Exam) : Prop := e.tombstonedAt ≠ none → e.status = str "inactive"

/-- The changes that the handlers and the expiry job make to an exam. -/
inductive ExamMutator : (Exam → Exam) → Prop
  | change (now : Bytes) (c : Change) : ExamMutator (c.apply now)
  | editToken (token now : Bytes) :
      ExamMutator fun e => { e with token := token, activeToken := token, tokenLastResetAt := some now }
  | retoken (token : Bytes) : ExamMutator (retoken token)
  | edit (form : EditForm) : ExamMutator form.apply
  | restoreFile (old : Exam) : ExamMutator (restoreFile old)
  | setStatus (status : Bytes) (h : status = str "active" ∨ status = str "inactive") :
      ExamMutator (setStatus status)
  | tombstone (now : Bytes) : ExamMutator (Jobs.tombstone now)
  | rotate (token now : Bytes) : ExamMutator (rotate token now)
  | rotateIfDue (clock : Clock) (token : Bytes) (now : Int) :
      ExamMutator fun e =>
        if rotationStillDue clock now e then rotate token (clock.format now) e else e
  | questions (form : QuestionsForm) : ExamMutator form.apply
  | delegate (owner : Int32) : ExamMutator fun e => { e with delegatedTo := some owner }

variable {e : Exam} {m : Exam → Exam} {s s' : MemoryStore} {id : Int32}

theorem Shut.of_eq {e' : Exam} (h : Shut e) (hstatus : e'.status = e.status)
    (htombstone : e'.tombstonedAt = e.tombstonedAt) : Shut e' := by
  intro hset
  rw [hstatus]
  exact h (htombstone ▸ hset)

theorem shut_of_inactive (h : e.status = str "inactive") : Shut e := fun _ => h

theorem shut_of_none (h : e.tombstonedAt = none) : Shut e := fun hset => absurd h hset

theorem Shut.not_isActive (h : Shut e) (hset : e.tombstonedAt ≠ none) : e.isActive = false := by
  rw [Exam.isActive, h hset]
  rfl

theorem shut_change (now : Bytes) (c : Change) (h : Shut e) : Shut (c.apply now e) := by
  cases c with
  | toggle =>
      simp only [Change.apply]
      split
      · exact shut_of_inactive rfl
      · exact shut_of_none rfl
  | start =>
      simp only [Change.apply]
      split
      · exact h
      · exact shut_of_none rfl
  | stop => exact shut_of_inactive rfl
  | tokenMode mode resetInterval =>
      simp only [Change.apply]
      split
      · exact h.of_eq rfl rfl
      · exact h.of_eq rfl rfl

theorem ExamMutator.shut (hm : ExamMutator m) (h : Shut e) : Shut (m e) := by
  cases hm with
  | change now c => exact shut_change now c h
  | editToken token now => exact h.of_eq rfl rfl
  | retoken token => exact h.of_eq rfl rfl
  | edit form =>
      unfold EditForm.apply
      split
      · exact h.of_eq rfl rfl
      · exact h.of_eq rfl rfl
  | restoreFile old => exact h.of_eq rfl rfl
  | setStatus status hstatus =>
      rcases hstatus with rfl | rfl
      · exact shut_of_none (by simp [Admin.setStatus])
      · exact shut_of_inactive rfl
  | tombstone now => exact shut_of_inactive rfl
  | rotate token now => exact h.of_eq rfl rfl
  | rotateIfDue clock token now =>
      dsimp only
      split
      · exact h.of_eq rfl rfl
      · exact h
  | questions form => exact h.of_eq rfl rfl
  | delegate owner => exact h.of_eq rfl rfl

/-! ### Stores -/

def AllShut (s : MemoryStore) : Prop := ∀ e ∈ s.exams, Shut e

theorem allShut_of_subset (h : AllShut s) (hsubset : s'.exams ⊆ s.exams) : AllShut s' :=
  fun e he => h e (hsubset he)

theorem allShut_update (h : AllShut s) (hm : ExamMutator m) : AllShut (s.update id m).2 := by
  cases hfind : s.getById id with
  | none =>
      rw [MemoryStore.update_of_getById_eq_none hfind]
      exact h
  | some old =>
      obtain ⟨before, after, -, hsplit, -, hupdate⟩ := MemoryStore.split_of_getById hfind
      intro e he
      rw [hupdate] at he
      have hold : ∀ e ∈ before ++ old :: after, Shut e := hsplit ▸ h
      rcases List.mem_append.mp he with he | he
      · exact hold e (List.mem_append_left _ he)
      · rcases List.mem_cons.mp he with rfl | he
        · exact hm.shut (hold old (List.mem_append_right _ List.mem_cons_self))
        · exact hold e (List.mem_append_right _ (List.mem_cons_of_mem _ he))

theorem allShut_remove (h : AllShut s) : AllShut (s.remove id).2 := by
  refine allShut_of_subset h ?_
  unfold MemoryStore.remove
  split
  · exact List.Subset.refl _
  · exact List.eraseP_subset

theorem allShut_add (h : AllShut s) (he : Shut e) : AllShut (s.add e).2 := by
  obtain hsame | hadded := s.add_cases e
  · rw [hsame]
    exact h
  · rw [hadded]
    intro e' he'
    rcases List.mem_append.mp he' with he' | he'
    · exact h e' he'
    · rw [List.mem_singleton.mp he']
      exact he

/-! ### Programs -/

/-- An update of this kind, or another operation. -/
def Op.Updates (p : (Exam → Exam) → Prop) : Op → Prop
  | .update _ mutate => p mutate
  | _ => True

/-- The operation changes exams in one of the ways above, if at all. -/
abbrev Op.Lawful : Op → Prop := Op.Updates ExamMutator

section

variable {p : (Exam → Exam) → Prop} {env : HandlerEnv} {req : Http.Request}

theorem all_withExamId_of_forall {P : Op → Prop} {k : Bytes → Int32 → HandlerProg}
    (h : ∀ idStr id, (k idStr id).All P) : (withExamId req k).All P := by
  unfold withExamId
  dsimp only
  split
  · trivial
  · split
    · trivial
    · exact h _ _

theorem updates_changeExam (idStr : Bytes) (change : Change) (h : p (change.apply env.now)) :
    (changeExam env idStr id change).All (Op.Updates p) := by
  refine .op_bind h fun old => ?_
  cases old <;> trivial

theorem lawful_editToken (idStr raw : Bytes) : (editToken env idStr id raw).All Op.Lawful := by
  unfold editToken
  split
  · trivial
  split
  · trivial
  next t _ =>
    refine .op_bind trivial fun claimed => ?_
    cases claimed with
    | false => trivial
    | true =>
        refine .op_bind (ExamMutator.editToken t.text env.now) fun old => ?_
        cases old with
        | none => exact ⟨trivial, fun _ => trivial⟩
        | some old =>
            dsimp only
            split
            · exact ⟨trivial, fun _ => trivial⟩
            · trivial

theorem lawful_setTokenMode (idStr raw : Bytes) (resetInterval : Option Int32) :
    (setTokenMode idStr id raw resetInterval).All Op.Lawful := by
  unfold setTokenMode
  dsimp only
  split
  · trivial
  split
  · trivial
  · refine .op_bind (ExamMutator.change [] _) fun old => ?_
    cases old <;> trivial

theorem lawful_claimDrawn (tries draw : Nat) : (claimDrawn env tries draw).All Op.Lawful := by
  induction tries generalizing draw with
  | zero => trivial
  | succ tries ih =>
      refine .op_bind trivial fun claimed => ?_
      cases claimed with
      | false => exact ih (draw + 1)
      | true => trivial

theorem lawful_regenerateToken (idStr : Bytes) : (regenerateToken env idStr id).All Op.Lawful := by
  refine (lawful_claimDrawn 5 0).bind fun drawn => ?_
  cases drawn with
  | none => trivial
  | some token =>
      refine .op_bind (ExamMutator.retoken token) fun old => ?_
      cases old with
      | none => exact ⟨trivial, fun _ => trivial⟩
      | some old =>
          dsimp only
          split
          · exact ⟨trivial, fun _ => trivial⟩
          · trivial

theorem lawful_editExam (idStr : Bytes) (form : EditForm) :
    (editExam env idStr id form).All Op.Lawful := by
  refine .op_bind (ExamMutator.edit form) fun old => ?_
  cases old with
  | none => trivial
  | some old =>
      dsimp only
      split
      · refine .op_bind trivial fun uploaded => ?_
        split
        · exact .op_bind (ExamMutator.restoreFile old) fun _ => trivial
        · trivial
      · trivial

theorem lawful_updateExam (env : HandlerEnv) (req : Http.Request) :
    (updateExam env req).All Op.Lawful := by
  refine all_withExamId_of_forall fun idStr id => ?_
  dsimp only
  split
  · exact lawful_editToken idStr _
  split
  · exact lawful_setTokenMode idStr _ _
  split
  · exact lawful_regenerateToken idStr
  split
  · exact updates_changeExam idStr .toggle (.change _ _)
  split
  · exact updates_changeExam idStr .start (.change _ _)
  split
  · exact updates_changeExam idStr .stop (.change _ _)
  split
  · split
    · trivial
    · exact lawful_editExam idStr _
  · trivial

theorem lawful_deleteExam (env : HandlerEnv) (req : Http.Request) :
    (deleteExam env req).All Op.Lawful := by
  refine all_withExamId_of_forall fun idStr id => .op_bind trivial fun found => ?_
  cases found with
  | none => trivial
  | some e =>
      dsimp only
      split
      · trivial
      · refine .op_bind trivial fun removed => ?_
        split <;> trivial

theorem updates_insertPengawas (ids : List Int32) : (insertPengawas id ids).All (Op.Updates p) := by
  induction ids with
  | nil => trivial
  | cons user rest ih =>
      refine .op_bind trivial fun rows => ?_
      cases rows with
      | none => trivial
      | some => exact ih

theorem updates_replacePengawas (ids : List Int32) :
    (replacePengawas id ids).All (Op.Updates p) := by
  refine .op_bind trivial fun begun => ?_
  split
  · trivial
  · refine .op_bind trivial fun valid => ?_
    dsimp only
    split
    · trivial
    · refine .op_bind trivial fun deleted => ?_
      split
      · trivial
      · exact updates_insertPengawas ids

theorem updates_savePengawas? (pengawas : Option (List Int32)) :
    (savePengawas? id pengawas).All (Op.Updates p) := by
  cases pengawas with
  | none => trivial
  | some ids =>
      refine .op_bind trivial fun reached => ?_
      split
      · trivial
      · exact (updates_replacePengawas ids).bind fun ok => .op_bind trivial fun _ => trivial

theorem lawful_saveExamQuestions
    (read : Bytes → Except Http.Response (QuestionsForm × Option (List Int32))) (env : HandlerEnv)
    (req : Http.Request) : (saveExamQuestions read env req).All Op.Lawful := by
  refine all_withExamId_of_forall fun idStr id => .op_bind trivial fun found => ?_
  cases found with
  | none => trivial
  | some e =>
      dsimp only
      split
      · trivial
      next form pengawas _ =>
        refine .op_bind (ExamMutator.questions form) fun old => ?_
        split
        · trivial
        · exact (updates_savePengawas? pengawas).bind fun _ => trivial

theorem updates_validUser (role : Bytes) (uid : Int32) :
    (validUser role id uid).All (Op.Updates p) := by
  refine .op_bind trivial fun rows => ?_
  split
  · trivial
  · exact .op_bind trivial fun _ => trivial

theorem updates_firstInvalid (uid : Int32) (ids : List Int32) :
    (firstInvalid uid ids).All (Op.Updates p) := by
  induction ids with
  | nil => trivial
  | cons id rest ih =>
      refine (updates_validUser _ uid).bind fun valid => ?_
      split
      · exact ih
      · trivial

theorem updates_rollback (outcome : Delegated) : (rollback outcome).All (Op.Updates p) :=
  .op_bind trivial fun _ => trivial

theorem updates_delegatePengawas (uid : Int32) (pengawas : Option (List Int32)) :
    (delegatePengawas id uid pengawas).All (Op.Updates p) := by
  cases pengawas with
  | none => exact .op_bind trivial fun _ => trivial
  | some ids =>
      refine (updates_firstInvalid uid ids).bind fun invalid => ?_
      cases invalid with
      | some => exact updates_rollback _
      | none =>
          refine .op_bind trivial fun deleted => ?_
          split
          · exact updates_rollback _
          · refine (updates_insertPengawas ids).bind fun inserted => ?_
            split
            · exact updates_rollback _
            · exact .op_bind trivial fun _ => trivial

theorem updates_delegateTransaction (uid : Int32) (newOwner : Option Int32)
    (pengawas : Option (List Int32)) :
    (delegateTransaction id uid newOwner pengawas).All (Op.Updates p) := by
  have hguru : (validGuru uid newOwner).All (Op.Updates p) := by
    cases newOwner with
    | none => trivial
    | some owner => exact updates_validUser _ uid
  have hwrite : (writeOwner id newOwner).All (Op.Updates p) := by
    cases newOwner <;> exact ⟨trivial, fun _ => trivial⟩
  refine .op_bind trivial fun reached => ?_
  split
  · trivial
  refine hguru.bind fun valid => ?_
  split
  · trivial
  refine .op_bind trivial fun begun => ?_
  split
  · trivial
  refine hwrite.bind fun written => ?_
  split
  · exact updates_rollback _
  · exact updates_delegatePengawas uid pengawas

theorem lawful_storeOwner (idStr : Bytes) (newOwner : Option Int32) :
    (storeOwner idStr id newOwner).All Op.Lawful := by
  cases newOwner with
  | none => trivial
  | some owner => exact .op_bind (ExamMutator.delegate owner) fun _ => trivial

theorem lawful_delegateExam (env : HandlerEnv) (req : Http.Request) :
    (delegateExam env req).All Op.Lawful := by
  refine all_withExamId_of_forall fun idStr id => .op_bind trivial fun found => ?_
  cases found with
  | none => trivial
  | some e =>
      dsimp only
      split
      · trivial
      · refine (updates_delegateTransaction _ _ _).bind fun outcome => ?_
        cases outcome with
        | ok => exact lawful_storeOwner idStr _
        | failed =>
            dsimp only
            split
            · trivial
            · exact lawful_storeOwner idStr _
        | guruInvalid => trivial
        | pengawasInvalid => trivial

theorem updates_writeAuditLog (idText : Bytes) (who : Http.AuditIdentity) (action detail : Bytes) :
    (writeAuditLog idText who action detail).All (Op.Updates p) := by
  refine .op_bind trivial fun reached => ?_
  split
  · exact .op_bind trivial fun _ => trivial
  · trivial

theorem lawful_toggleEach (scopeOk : Int32 → Exam → Bool) (who : Http.AuditIdentity) {status : Bytes}
    (hstatus : status = str "active" ∨ status = str "inactive") (ids : List Int32) (count : Nat) :
    (toggleEach scopeOk who status ids count).All Op.Lawful := by
  induction ids generalizing count with
  | nil => trivial
  | cons id rest ih =>
      refine .op_bind trivial fun found => ?_
      cases found with
      | none => exact ih count
      | some e =>
          dsimp only
          split
          · exact ih count
          · refine .op_bind (ExamMutator.setStatus status hstatus) fun old => ?_
            cases old with
            | none => exact ih count
            | some old => exact (updates_writeAuditLog _ _ _ _).bind fun _ => ih (count + 1)

theorem lawful_bulkToggleExams (scopeOk : Int32 → Exam → Bool) (req : Http.Request) :
    (bulkToggleExams scopeOk req).All Op.Lawful := by
  unfold bulkToggleExams
  dsimp only
  split
  · trivial
  split
  · trivial
  next hstatus =>
    refine Prog.All.bind (lawful_toggleEach _ _ ?_ _ 0) fun _ => trivial
    by_contra hneither
    exact hstatus (not_or.mp hneither)

theorem lawful_runExpiryJob (clock : Clock) (acquired : Bool) (now : Int) :
    (Jobs.runExpiryJob clock acquired now).All Op.Lawful := by
  have heach : ∀ exams, (Jobs.expireEach clock now exams).All Op.Lawful := by
    intro exams
    induction exams with
    | nil => trivial
    | cons e rest ih =>
        unfold Jobs.expireEach
        split
        · exact ih
        · exact .op_bind (ExamMutator.tombstone _) fun _ => ih
  unfold Jobs.runExpiryJob
  split
  · trivial
  · exact .op_bind trivial fun exams => heach exams

theorem lawful_program (clock : Clock)
    (read : Bytes → Except Http.Response (QuestionsForm × Option (List Int32))) (call : AdminCall) :
    (call.program clock read).All Op.Lawful := by
  cases call with
  | updateExam env req => exact (lawful_updateExam env req).bind fun _ => trivial
  | saveExamQuestions env req => exact (lawful_saveExamQuestions read env req).bind fun _ => trivial
  | delegateExam env req => exact (lawful_delegateExam env req).bind fun _ => trivial
  | deleteExam env req => exact (lawful_deleteExam env req).bind fun _ => trivial
  | bulkToggleExams scopeOk req => exact (lawful_bulkToggleExams scopeOk req).bind fun _ => trivial
  | runExpiryJob acquired now => exact (lawful_runExpiryJob clock acquired now).bind fun _ => trivial

/-- A request to start an exam changes it by starting it, and does nothing else. -/
theorem updates_start (env : HandlerEnv) {req : Http.Request} (haction : actionOf req = str "start") :
    (updateExam env req).All fun o => ∃ id, o = .update id (Change.start.apply env.now) := by
  refine all_withExamId_of_forall fun idStr id => ?_
  simp only [haction]
  exact ⟨⟨id, rfl⟩, fun old => by cases old <;> trivial⟩

end

/-! ### Creating -/

/-- A new exam has no tombstone. -/
def CreateOp.AddsShut : CreateOp → Prop
  | .add e => Shut e
  | _ => True

section

variable {env : CreateEnv} {req : Http.Request}

theorem addsShut_releaseAndReturn (idem : Bytes) (r : Http.Response) :
    (releaseAndReturn idem r).All CreateOp.AddsShut := by
  unfold releaseAndReturn
  split
  · trivial
  · exact ⟨trivial, fun _ => trivial⟩

theorem addsShut_claimGenerated (tries i : Nat) :
    (claimGenerated env tries i).All CreateOp.AddsShut := by
  induction tries generalizing i with
  | zero => trivial
  | succ tries ih =>
      refine ⟨trivial, fun claimed => ?_⟩
      cases claimed with
      | true => trivial
      | false => exact ih (i + 1)

theorem addsShut_claimCreateToken (customToken : Bytes) :
    (claimCreateToken env customToken).All CreateOp.AddsShut := by
  unfold claimCreateToken
  split
  · split
    · trivial
    · refine .op_bind trivial fun claimed => ?_
      cases claimed <;> trivial
  · refine (addsShut_claimGenerated 5 0).bind fun token => ?_
    cases token <;> trivial

theorem addsShut_replyCreated (idem fingerprint : Bytes) (form : CreateForm) (id : Int32)
    (token : Bytes) : (replyCreated env req idem fingerprint form id token).All CreateOp.AddsShut := by
  unfold replyCreated
  dsimp only
  split
  · trivial
  · split
    · trivial
    · exact ⟨trivial, fun _ => trivial⟩

theorem addsShut_createReserved (idem fingerprint : Bytes) :
    (createReserved env req idem fingerprint).All CreateOp.AddsShut := by
  unfold createReserved
  split
  · exact addsShut_releaseAndReturn idem _
  split
  · exact addsShut_releaseAndReturn idem _
  next form _ =>
    refine (addsShut_claimCreateToken _).bind fun claimed => ?_
    cases claimed with
    | error r => exact addsShut_releaseAndReturn idem r
    | ok token =>
        refine .op_bind trivial fun id => ?_
        split
        · exact .op_bind trivial fun _ => addsShut_releaseAndReturn idem _
        · refine .op_bind (shut_of_none rfl) fun added => ?_
          split
          · exact addsShut_replyCreated idem fingerprint form id token
          · exact .op_bind trivial fun _ => addsShut_releaseAndReturn idem _

theorem addsShut_createExam (env : CreateEnv) (req : Http.Request) :
    (createExam env req).All CreateOp.AddsShut := by
  unfold createExam
  dsimp only
  split
  · exact addsShut_createReserved [] []
  split
  · trivial
  · refine ⟨trivial, fun reserved => ?_⟩
    cases reserved with
    | new => exact addsShut_createReserved _ _
    | replay => trivial
    | conflict => trivial

end

/-! ### Joining -/

/-- The answer to whoever joins, or submits to, an exam that is not active. -/
def notStarted : Http.Response :=
  ⟨403, str
    "\x7b\"success\":false,\"error\":\"exam not started\",\"message\":\"Ujian belum dimulai\"\x7d"⟩

theorem joinReply_of_tombstone (clock : Clock) (now : Int) (h : Shut e) (hset : e.tombstonedAt ≠ none) :
    joinReply clock now e = .done (.response notStarted) := by
  unfold joinReply
  rw [h.not_isActive hset]
  rfl

/-- Where a join can be, and that it refuses the exam that it has matched if that has a tombstone. -/
def Join.Refuses (t : Join) : Prop :=
  match t.progress with
  | .next (.joinLook _) => t.found = none
  | .next (.joinSync e _ _) | .next (.joinRotate e _ _) => t.found = some e ∧ Shut e
  | .next _ => False
  | .done r => ∀ e, t.found = some e → e.tombstonedAt ≠ none → r = .response notStarted

theorem refuses_start (io : Surroundings) (token : Bytes) : (Join.start io token).Refuses := by
  unfold Join.start Request.begin
  dsimp only
  split
  · rfl
  · exact fun _ h => by cases h

theorem refuses_joinReply {clock : Clock} {now : Int} {io : Surroundings} {e' : Exam} (h : Shut e)
    (hstatus : e'.status = e.status) (htombstone : e'.tombstonedAt = e.tombstonedAt) :
    Join.Refuses ⟨io, some e, joinReply clock now e'⟩ := by
  have hdone : ∃ r, joinReply clock now e' = .done r := by
    unfold joinReply
    split
    · exact ⟨_, rfl⟩
    · split
      · exact ⟨_, rfl⟩
      · exact ⟨_, rfl⟩
  obtain ⟨r, hr⟩ := hdone
  rw [hr]
  intro e₀ he₀ hset
  obtain rfl := Option.some.inj he₀
  have hrefused := joinReply_of_tombstone clock now (h.of_eq hstatus htombstone)
    (by rw [htombstone]; exact hset)
  exact Progress.done.inj (hr.symm.trans hrefused)

theorem refuses_joinMatched (clock : Clock) (io : Surroundings) (h : Shut e) :
    Join.Refuses ⟨io, some e, joinMatched clock io e⟩ := by
  unfold joinMatched
  split
  · split
    · exact ⟨rfl, h⟩
    · split
      · exact refuses_joinReply h rfl rfl
      · exact refuses_joinReply h rfl rfl
    · exact ⟨rfl, h⟩
  · exact refuses_joinReply h rfl rfl

theorem Join.Refuses.next {clock : Clock} {t t' : Join} (ht : t.Refuses) (hs : AllShut s)
    (hnext : t.next? clock s = some (t', s')) : t'.Refuses ∧ AllShut s' := by
  obtain ⟨io, found, progress⟩ := t
  unfold Join.next? at hnext
  cases progress with
  | done r => cases hnext
  | next h =>
      obtain ⟨rfl, rfl⟩ := Prod.mk.inj (Option.some.inj hnext)
      cases h with
      | joinLook token =>
          refine ⟨?_, hs⟩
          simp only [Handler.move]
          cases hlookup : lookup s.exams token with
          | none => exact fun _ h => by cases h
          | some e => exact refuses_joinMatched clock io (hs e (List.mem_of_find?_eq_some hlookup))
      | joinSync exam token now =>
          obtain ⟨rfl, hshut⟩ := ht
          exact ⟨refuses_joinReply hshut rfl rfl, allShut_update hs (.rotate _ _)⟩
      | joinRotate exam token now =>
          obtain ⟨rfl, hshut⟩ := ht
          refine ⟨?_, allShut_update hs (.rotateIfDue clock token.text now)⟩
          simp only [Handler.move]
          split
          · exact refuses_joinReply hshut rfl rfl
          · exact refuses_joinReply hshut rfl rfl
      | _ => exact ht.elim

end ExamVan.Admin
