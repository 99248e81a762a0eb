import ExamVan.Admin.UpdateExam
import ExamVan.Lib.Protocol
import ExamVan.Store.Memory

/-!
# Edits side by side

An edit with a new file writes the name and the file, and puts the old file back if the upload
fails. Every operation of it is one step on the memory store, and other edits may come between.
-/

namespace ExamVan.Admin

open ByteString Models Store

/-! ### Requests and operations -/

/-- A request of `update_exam` for an edit, with what it meets. -/
structure EditRequest where
  env : HandlerEnv
  req : Http.Request
  isEdit : actionOf req = str "edit"

/-- The store, and the outcomes of all uploads in their order. -/
structure EditWorld where
  store : MemoryStore
  outcomes : Nat → Bool
  uploads : Nat := 0

/-- An operation on the memory store, without a database. -/
def Op.perform : (op : Op) → EditWorld → Ans op × EditWorld
  | .getById id, w => (w.store.getById id, w)
  | .listAll, w => (w.store.listAll, w)
  | .update id mutate, w =>
      ((w.store.update id mutate).1, { w with store := (w.store.update id mutate).2 })
  | .remove id, w => ((w.store.remove id).1, { w with store := (w.store.remove id).2 })
  | .claimToken token, w =>
      ((w.store.claimToken token).1, { w with store := (w.store.claimToken token).2 })
  | .claimTokenIfAbsent token id, w =>
      ((w.store.claimTokenIfAbsent token id).1,
        { w with store := (w.store.claimTokenIfAbsent token id).2 })
  | .unclaimToken token, w => ((), { w with store := w.store.unclaimToken token })
  | .upload _ _ _, w => (w.outcomes w.uploads, { w with uploads := w.uploads + 1 })
  | .acquire, w => (false, w)
  | .examQuery _ _ _, w | .otherQuery _ _, w | .exportSubmissions _, w => (none, w)

abbrev EditJob := Job EditRequest Op Ans ExamReply

def EditRequest.program (r : EditRequest) : HandlerProg := updateExam r.env r.req

abbrev EditAction := Threads.Action EditRequest

/-- All edits on one store. -/
def edits (w : EditWorld) : System (Threads EditJob EditWorld) EditAction :=
  Job.system EditRequest.program Op.perform w

/-- The exam and the form of a request that passes the checks. -/
def EditRequest.accepted (r : EditRequest) : Option (Int32 × EditForm) :=
  if getExamId r.req = [] then none
  else
    (stoi (getExamId r.req)).bind fun id =>
      match checkEdit r.env (readEdit r.req) with
      | .error _ => none
      | .ok form => some (id, form)

/-! ### What edits do to an exam -/

/-- The exam after edits, the first of them first. -/
def applyAll (forms : List EditForm) (e : Exam) : Exam := forms.foldl (fun e form => form.apply e) e

/-- The last edit that has brought a file. -/
def lastFile (forms : List EditForm) : Option EditForm :=
  (forms.filter fun form => form.pdfData ≠ []).getLast?

/-- Edits set the name and the file, each as the last one says that has it. -/
theorem applyAll_eq (forms : List EditForm) (e : Exam) :
    applyAll forms e =
      { e with
        name := (forms.getLast?.map EditForm.name).getD e.name
        filePath := ((lastFile forms).map EditForm.pdfName).getD e.filePath
        sizeBytes := ((lastFile forms).map fun form =>
          Int64.ofNat form.pdfData.length).getD e.sizeBytes } := by
  induction forms using List.reverseRecOn with
  | nil => rfl
  | append_singleton forms form ih =>
      rw [applyAll, List.foldl_concat, ← applyAll, ih]
      unfold EditForm.apply lastFile
      by_cases hfile : form.pdfData = []
      · simp [hfile]
      · simp [hfile]

/-- With a new file, an edit that is rolled back under later edits leaves what these alone leave
exactly if one of them has set the name, or it was the same, and none has set another file. -/
theorem restoreFile_eq_iff {form : EditForm} (hfile : form.pdfData ≠ []) (forms : List EditForm)
    (old : Exam) :
    restoreFile old (applyAll forms (form.apply old)) = applyAll forms old ↔
      (forms = [] → form.name = old.name) ∧
        ∀ last ∈ lastFile forms, last.pdfName = old.filePath ∧
          Int64.ofNat last.pdfData.length = old.sizeBytes := by
  have hname : (forms.getLast?.map EditForm.name).getD form.name =
      (forms.getLast?.map EditForm.name).getD old.name ↔ (forms = [] → form.name = old.name) := by
    cases hlast : forms.getLast? with
    | none => simp [List.getLast?_eq_none_iff.mp hlast]
    | some last =>
        refine iff_of_true rfl fun hnil => ?_
        rw [hnil] at hlast
        cases hlast
  rw [applyAll_eq, applyAll_eq, restoreFile, EditForm.apply, if_neg hfile]
  simp only [Exam.mk.injEq, true_and, and_true, hname]
  refine and_congr_right fun _ => ?_
  cases lastFile forms with
  | none => simp
  | some last => simp [eq_comm]

/-! ### One call -/

/-- What an edit does after its upload. -/
def afterUpload (r : EditRequest) (id : Int32) (form : EditForm) (old : Exam) (uploaded : Bool) :
    HandlerProg :=
  if !(uploaded || r.env.nonStrict) then
    .call (.update id (restoreFile old)) fun _ => respond uploadFailed
  else respond (editReply (getExamId r.req) form.name)

/-- What an edit does after its write. -/
def afterWrite (r : EditRequest) (id : Int32) (form : EditForm) : Option Exam → HandlerProg
  | none => respond notFound
  | some old =>
      if form.pdfData = [] then respond (editReply (getExamId r.req) form.name)
      else .call (.upload id form.pdfName form.pdfData) (afterUpload r id form old)

section

variable {r : EditRequest} {id : Int32} {form : EditForm}

theorem program_eq (r : EditRequest) :
    r.program = withExamId r.req fun idStr id =>
      match checkEdit r.env (readEdit r.req) with
      | .error resp => respond resp
      | .ok form => editExam r.env idStr id form := by
  unfold EditRequest.program updateExam
  congr 1
  funext idStr id
  simp only [r.isEdit]
  exact (if_neg (by decide)).trans <| (if_neg (by decide)).trans <| (if_neg (by decide)).trans <|
    (if_neg (by decide)).trans <| (if_neg (by decide)).trans <| (if_neg (by decide)).trans <|
    if_pos trivial

theorem editExam_eq (r : EditRequest) (id : Int32) (form : EditForm) :
    editExam r.env (getExamId r.req) id form =
      .call (.update id form.apply) (afterWrite r id form) := by
  unfold editExam
  rw [Prog.op_bind]
  congr 1
  funext found
  cases found with
  | none => rfl
  | some old =>
      simp only [afterWrite]
      by_cases hfile : form.pdfData = []
      · rw [if_neg (not_not.mpr hfile), if_pos hfile]
        rfl
      · rw [if_pos hfile, if_neg hfile, Prog.op_bind]
        rfl

theorem program_of_accepted (h : r.accepted = some (id, form)) :
    r.program = .call (.update id form.apply) (afterWrite r id form) := by
  rw [program_eq]
  unfold EditRequest.accepted at h
  split at h
  · cases h
  next hid =>
    obtain ⟨id', hstoi, hcheck⟩ := Option.bind_eq_some_iff.mp h
    unfold withExamId
    rw [if_neg hid, hstoi]
    dsimp only
    split at hcheck
    · cases hcheck
    next form' hform =>
      cases hcheck
      exact editExam_eq r id form

theorem program_of_refused (h : r.accepted = none) : ∃ resp, r.program = respond resp := by
  rw [program_eq]
  unfold EditRequest.accepted at h
  unfold withExamId
  dsimp only
  split at h
  next hid => exact ⟨_, if_pos hid⟩
  next hid =>
    rw [if_neg hid]
    cases hstoi : stoi (getExamId r.req) with
    | none => exact ⟨_, rfl⟩
    | some id =>
        rw [hstoi] at h
        dsimp only [Option.bind_some] at h ⊢
        split at h
        next resp hcheck => exact ⟨resp, rfl⟩
        · cases h

theorem named_of_accepted (h : r.accepted = some (id, form)) :
    stoi (getExamId r.req) = some id := by
  unfold EditRequest.accepted at h
  split at h
  · cases h
  · obtain ⟨id', hstoi, hcheck⟩ := Option.bind_eq_some_iff.mp h
    split at hcheck <;> cases hcheck
    exact hstoi

end

/-! ### Stages -/

/-- How far an edit has come. -/
inductive EditStage (t : EditJob) : Prop
  | refused (resp : Http.Response) (hinput : t.input.accepted = none)
      (hprogram : t.program = respond resp)
  | fresh (id : Int32) (form : EditForm) (hinput : t.input.accepted = some (id, form))
      (hhistory : t.history = [])
      (hprogram : t.program = .call (.update id form.apply) (afterWrite t.input id form))
  | uploading (id : Int32) (form : EditForm) (old : Exam)
      (hinput : t.input.accepted = some (id, form)) (hlength : t.history.length = 1)
      (hprogram : t.program =
        .call (.upload id form.pdfName form.pdfData) (afterUpload t.input id form old))
  | restoring (id : Int32) (form : EditForm) (old : Exam)
      (hinput : t.input.accepted = some (id, form)) (hlength : t.history.length = 2)
      (hprogram : t.program = .call (.update id (restoreFile old)) fun _ => respond uploadFailed)
  | answered (resp : Http.Response) (hhistory : t.history ≠ []) (hprogram : t.program = respond resp)

/-- The form that the next operation of a call writes to exam `m`. -/
def writeOf (m : Int32) (t : EditJob) : Option EditForm :=
  match t.input.accepted with
  | none => none
  | some (id, form) => if t.history = [] ∧ id = m then some form else none

/-- The next operation of a call, if there is one, puts the old file of exam `m` back. -/
def RollsBack (m : Int32) (t : EditJob) : Prop :=
  t.history.length = 2 ∧ t.input.accepted.map Prod.fst = some m

section

variable {t t' : EditJob} {w w' : EditWorld} {id m : Int32} {form : EditForm} {old : Exam}

theorem editStage_start (r : EditRequest) : EditStage (Job.start EditRequest.program r) := by
  cases haccepted : r.accepted with
  | none =>
      obtain ⟨resp, hprogram⟩ := program_of_refused haccepted
      exact .refused resp haccepted hprogram
  | some pair =>
      exact .fresh pair.1 pair.2 haccepted rfl (program_of_accepted haccepted)

theorem writeOf_of_history (h : t.history ≠ []) : writeOf m t = none := by
  unfold writeOf
  split
  · rfl
  · exact if_neg fun hfresh => h hfresh.1

theorem writeOf_of_accepted (h : t.input.accepted = some (id, form)) (hhistory : t.history = []) :
    writeOf m t = if id = m then some form else none := by
  unfold writeOf
  rw [h]
  simp only [hhistory, true_and]

theorem id_apply (form : EditForm) (e : Exam) : (form.apply e).id = e.id := by
  unfold EditForm.apply
  split <;> rfl

theorem id_restoreFile (old e : Exam) : (restoreFile old e).id = e.id := rfl

/-- One step of a call that does not roll back, on any exam. -/
theorem editStage_next? (hstage : EditStage t) (hnext : t.next? Op.perform w = some (t', w')) :
    EditStage t' ∧ (¬ RollsBack m t →
      w'.store.getById m = (w.store.getById m).map (applyAll (writeOf m t).toList)) := by
  have hsame : ∀ {e : Option Exam}, t.history ≠ [] →
      e = e.map (applyAll (writeOf m t).toList) := by
    intro e hhistory
    rw [writeOf_of_history hhistory]
    cases e <;> rfl
  obtain ⟨o, next, hcall, rfl, rfl⟩ := Job.next?_eq_some hnext
  cases hstage with
  | refused resp hinput hprogram =>
      rw [hprogram] at hcall
      cases hcall
  | answered resp hhistory hprogram =>
      rw [hprogram] at hcall
      cases hcall
  | fresh id form hinput hhistory hprogram =>
      obtain ⟨rfl, hnext⟩ := Prog.call.inj (hcall.symm.trans hprogram)
      obtain rfl := eq_of_heq hnext
      constructor
      · simp only [Op.perform, MemoryStore.update]
        cases w.store.getById id with
        | none => exact .answered notFound (by simp) rfl
        | some old =>
            by_cases hfile : form.pdfData = []
            · exact .answered _ (by simp) (if_pos hfile)
            · exact .uploading id form old hinput (by simp [hhistory]) (if_neg hfile)
      · intro _
        rw [writeOf_of_accepted hinput hhistory]
        by_cases hm : id = m
        · subst hm
          rw [if_pos rfl]
          exact MemoryStore.getById_update_self (id_apply form)
        · rw [if_neg hm]
          refine (MemoryStore.getById_update_of_ne (Ne.symm hm) (id_apply form)).trans ?_
          cases w.store.getById m <;> rfl
  | uploading id form old hinput hlength hprogram =>
      obtain ⟨rfl, hnext⟩ := Prog.call.inj (hcall.symm.trans hprogram)
      obtain rfl := eq_of_heq hnext
      have hhistory : t.history ≠ [] := fun h => by simp [h] at hlength
      refine ⟨?_, fun _ => hsame hhistory⟩
      by_cases hfailed : (!(w.outcomes w.uploads || t.input.env.nonStrict)) = true
      · exact .restoring id form old hinput (by simp [hlength]) (if_pos hfailed)
      · exact .answered _ (by simp) (if_neg hfailed)
  | restoring id form old hinput hlength hprogram =>
      obtain ⟨rfl, hnext⟩ := Prog.call.inj (hcall.symm.trans hprogram)
      obtain rfl := eq_of_heq hnext
      have hhistory : t.history ≠ [] := fun h => by simp [h] at hlength
      refine ⟨.answered uploadFailed (by simp) rfl, fun hkept => ?_⟩
      have hne : m ≠ id := fun h => hkept ⟨hlength, by rw [hinput, h]; rfl⟩
      exact (MemoryStore.getById_update_of_ne hne (id_restoreFile old)).trans (hsame hhistory)

/-- The call has written its form over the exam `old`, and may have to put its file back. -/
def Awaits (id : Int32) (form : EditForm) (old : Exam) (t : EditJob) : Prop :=
  t.program = .call (.upload id form.pdfName form.pdfData) (afterUpload t.input id form old) ∨
    t.program = .call (.update id (restoreFile old)) fun _ => respond uploadFailed

/-- The step of a call that awaits its upload: it still has to put the file back, or it is answered. -/
theorem awaits_next? (hawaits : Awaits id form old t)
    (hnext : t.next? Op.perform w = some (t', w')) :
    (Awaits id form old t' ∧ w'.store = w.store) ∨
      (∃ resp, t'.program = respond resp ∧ resp.status = 200) ∨
      t'.program = respond uploadFailed ∧
        w'.store.getById id = (w.store.getById id).map (restoreFile old) := by
  obtain ⟨o, next, hcall, rfl, rfl⟩ := Job.next?_eq_some hnext
  rcases hawaits with hprogram | hprogram
  · obtain ⟨rfl, hnext⟩ := Prog.call.inj (hcall.symm.trans hprogram)
    obtain rfl := eq_of_heq hnext
    by_cases hfailed : (!(w.outcomes w.uploads || t.input.env.nonStrict)) = true
    · exact Or.inl ⟨Or.inr (if_pos hfailed), rfl⟩
    · exact Or.inr (Or.inl ⟨_, if_neg hfailed, rfl⟩)
  · obtain ⟨rfl, hnext⟩ := Prog.call.inj (hcall.symm.trans hprogram)
    obtain rfl := eq_of_heq hnext
    exact Or.inr (Or.inr ⟨rfl, MemoryStore.getById_update_self (id_restoreFile old)⟩)

end

/-! ### Runs -/

section

variable (m : Int32) (i : Nat)

/-- What a step of another call than the one at `i` writes to exam `m`. -/
def othersWrite (s : Threads EditJob EditWorld) : EditAction → Option EditForm
  | .arrive _ => none
  | .step j => if j = i then none else (s.threads[j]?).bind (writeOf m)

/-- No other call than the one at `i` puts the old file of exam `m` back. -/
def OthersSucceed (s : Threads EditJob EditWorld) : EditAction → Prop
  | .arrive _ => True
  | .step j => j ≠ i → ∀ t ∈ s.threads[j]?, ¬ RollsBack m t

def AllStaged (s : Threads EditJob EditWorld) : Prop := ∀ t ∈ s.threads, EditStage t

/-- The answer of the call at `i`, if it has come to its end. -/
def answerOf (s : Threads EditJob EditWorld) : Option ExamReply :=
  (s.threads[i]?).bind fun t => t.program.result?

end

section

variable {w : EditWorld} {s s' : Threads EditJob EditWorld} {m id : Int32} {i : Nat}
  {form : EditForm} {old : Exam} {t : EditJob} {a : EditAction} {actions : List EditAction}

theorem allStaged_step (hstaged : AllStaged s) (hstep : (edits w).step? s a = some s') :
    AllStaged s' := by
  cases a with
  | arrive r =>
      cases hstep
      intro t ht
      rcases List.mem_append.mp ht with ht | ht
      · exact hstaged t ht
      · rw [List.mem_singleton.mp ht]
        exact editStage_start r
  | step j =>
      obtain ⟨t, t', w', hj, hnext, rfl⟩ := Threads.step?_step hstep
      intro u hu
      rcases Threads.mem_set_cases hu with rfl | ⟨k, -, hk⟩
      · exact (editStage_next? (m := 0) (hstaged t (List.mem_of_getElem? hj)) hnext).1
      · exact hstaged u (List.mem_of_getElem? hk)

theorem allStaged_run (hstaged : AllStaged s) (hrun : (edits w).run? s actions = some s') :
    AllStaged s' := by
  induction actions generalizing s with
  | nil =>
      cases hrun
      exact hstaged
  | cons a rest ih =>
      obtain ⟨mid, hstep, hrest⟩ := Option.bind_eq_some_iff.mp hrun
      exact ih (allStaged_step hstaged hstep) hrest

/-- A step of another call leaves the call at `i` where it is, and does to exam `m` what it writes. -/
theorem others_step (hstaged : AllStaged s) (ha : a ≠ .step i) (hi : s.threads[i]? = some t)
    (hguard : OthersSucceed m i s a) (hstep : (edits w).step? s a = some s') :
    s'.threads[i]? = some t ∧
      s'.world.store.getById m =
        (s.world.store.getById m).map (applyAll (othersWrite m i s a).toList) := by
  refine ⟨Threads.getElem?_of_step? ha hi hstep, ?_⟩
  cases a with
  | arrive r =>
      cases hstep
      cases s.world.store.getById m <;> rfl
  | step j =>
      have hne : j ≠ i := fun h => ha (congrArg Threads.Action.step h)
      obtain ⟨u, u', w', hj, hnext, rfl⟩ := Threads.step?_step hstep
      have hwrites := (editStage_next? (hstaged u (List.mem_of_getElem? hj)) hnext).2
        (hguard hne u hj)
      simpa [othersWrite, hne, hj] using hwrites

theorem answered_step {resp : ExamReply} (hi : s.threads[i]? = some t)
    (hdone : t.program = .done resp) (hstep : (edits w).step? s a = some s') :
    a ≠ .step i ∧ s'.threads[i]? = some t := by
  have hne : a ≠ .step i := by
    rintro rfl
    obtain ⟨t', u, w', hj, hnext, rfl⟩ := Threads.step?_step hstep
    obtain rfl := Option.some.inj (hi.symm.trans hj)
    obtain ⟨o, next, hcall, -⟩ := Job.next?_eq_some hnext
    rw [hdone] at hcall
    cases hcall
  exact ⟨hne, Threads.getElem?_of_step? hne hi hstep⟩

/-- A call that is answered takes no step any more. -/
theorem answered_run {resp : ExamReply} (hi : s.threads[i]? = some t)
    (hdone : t.program = .done resp) (hrun : (edits w).run? s actions = some s') :
    .step i ∉ actions ∧ s'.threads[i]? = some t := by
  induction actions generalizing s with
  | nil =>
      cases hrun
      exact ⟨List.not_mem_nil, hi⟩
  | cons a rest ih =>
      obtain ⟨mid, hstep, hrest⟩ := Option.bind_eq_some_iff.mp hrun
      obtain ⟨hne, hmid⟩ := answered_step hi hdone hstep
      obtain ⟨hnot, hkept⟩ := ih hmid hrest
      exact ⟨List.not_mem_cons_of_ne_of_not_mem (Ne.symm hne) hnot, hkept⟩

/-- As long as a call awaits its upload, the others do to its exam what they write. -/
theorem awaits_run (hstaged : AllStaged s) (hi : s.threads[i]? = some t)
    (hawaits : Awaits id form old t) (hguard : (edits w).Guarded (OthersSucceed id i) s actions)
    (hrun : (edits w).run? s actions = some s') (hend : answerOf i s' = none) :
    (∃ t', s'.threads[i]? = some t' ∧ Awaits id form old t') ∧
      s'.world.store.getById id =
        (s.world.store.getById id).map (applyAll ((edits w).trace (othersWrite id i) s actions)) := by
  induction actions generalizing s t with
  | nil =>
      cases hrun
      exact ⟨⟨t, hi, hawaits⟩, by cases s'.world.store.getById id <;> rfl⟩
  | cons a rest ih =>
      obtain ⟨mid, hstep, hrest⟩ := Option.bind_eq_some_iff.mp hrun
      have hmid := allStaged_step hstaged hstep
      have hrestGuard := hguard.2 mid hstep
      simp only [System.trace, hstep, Option.map_some, Option.getD_some]
      by_cases ha : a = .step i
      · subst ha
        obtain ⟨t', u, w', hj, hnext, rfl⟩ := Threads.step?_step hstep
        obtain rfl := Option.some.inj (hi.symm.trans hj)
        have hu : (s.threads.set i u)[i]? = some u :=
          List.getElem?_set_self (List.getElem?_eq_some_iff.mp hi).1
        have hnot : ∀ resp, u.program ≠ respond resp := fun resp hdone => by
          rw [answerOf, (answered_run hu hdone hrest).2, Option.bind_some, hdone] at hend
          cases hend
        rcases awaits_next? hawaits hnext with ⟨hawaits', hstore⟩ | ⟨resp, hdone, -⟩ | ⟨hdone, -⟩
        · obtain ⟨hlast, heq⟩ := ih hmid hu hawaits' hrestGuard hrest
          refine ⟨hlast, ?_⟩
          rw [heq]
          simp [othersWrite, hstore]
        · exact absurd hdone (hnot resp)
        · exact absurd hdone (hnot _)
      · obtain ⟨hkept, hwrites⟩ := others_step hstaged ha hi hguard.1 hstep
        obtain ⟨hlast, heq⟩ := ih hmid hkept hawaits hrestGuard hrest
        refine ⟨hlast, ?_⟩
        rw [heq, hwrites, Option.map_map]
        congr 1
        funext e
        exact List.foldl_append.symm

end

/-! ### Failed edits -/

section

variable {w : EditWorld} {s mid s' : Threads EditJob EditWorld} {id : Int32} {i : Nat}
  {form : EditForm} {old : Exam} {t : EditJob} {rest : List EditAction}

/-- The first step of an accepted edit. -/
theorem write_step (hi : s.threads[i]? = some t)
    (hprogram : t.program = .call (.update id form.apply) (afterWrite t.input id form))
    (hstep : (edits w).step? s (.step i) = some s') :
    (∃ t', s'.threads[i]? = some t' ∧ t'.input = t.input ∧
        t'.program = afterWrite t.input id form (s.world.store.getById id)) ∧
      s'.world.store.getById id = (s.world.store.getById id).map form.apply := by
  obtain ⟨u, u', w', hj, hnext, rfl⟩ := Threads.step?_step hstep
  obtain rfl := Option.some.inj (hi.symm.trans hj)
  rw [Job.next?_of_call hprogram] at hnext
  cases hnext
  exact ⟨⟨_, List.getElem?_set_self (List.getElem?_eq_some_iff.mp hi).1, rfl, rfl⟩,
    MemoryStore.getById_update_self (id_apply form)⟩

/-- The last step of a call that awaits its upload and is then answered with an error. -/
theorem awaits_last {resp : Http.Response} (hi : s.threads[i]? = some t)
    (hawaits : Awaits id form old t) (hstep : (edits w).step? s (.step i) = some s')
    (hanswer : answerOf i s' = some (.response resp)) (hfailed : 400 ≤ resp.status) :
    s'.world.store.getById id = (s.world.store.getById id).map (restoreFile old) := by
  obtain ⟨u, u', w', hj, hnext, rfl⟩ := Threads.step?_step hstep
  obtain rfl := Option.some.inj (hi.symm.trans hj)
  have hset : (s.threads.set i u')[i]? = some u' :=
    List.getElem?_set_self (List.getElem?_eq_some_iff.mp hi).1
  rw [answerOf, hset, Option.bind_some, Prog.result?_eq_some] at hanswer
  rcases awaits_next? hawaits hnext with ⟨hstill, -⟩ | ⟨resp', hdone, hstatus⟩ | ⟨-, hstore⟩
  · rcases hstill with hcall | hcall <;> cases hanswer.symm.trans hcall
  · cases hanswer.symm.trans hdone
    omega
  · exact hstore

/-- The steps between the write and the rollback are those of a call that awaits its upload. -/
theorem awaits_until_last {resp : Http.Response} (hstaged : AllStaged s)
    (hi : s.threads[i]? = some t) (hawaits : Awaits id form old t)
    (hguard : (edits w).Guarded (OthersSucceed id i) s rest)
    (hrun : (edits w).run? s rest = some s') (hlast : ∀ a ∈ rest.getLast?, a = .step i)
    (hanswer : answerOf i s' = some (.response resp)) (hfailed : 400 ≤ resp.status) :
    s'.world.store.getById id =
      (s.world.store.getById id).map fun e =>
        restoreFile old (applyAll ((edits w).trace (othersWrite id i) s rest) e) := by
  rcases List.eq_nil_or_concat rest with rfl | ⟨first, a, rfl⟩
  · cases hrun
    rw [answerOf, hi, Option.bind_some, Prog.result?_eq_some] at hanswer
    rcases hawaits with hcall | hcall <;> cases hanswer.symm.trans hcall
  · rw [List.concat_eq_append] at *
    obtain rfl : a = .step i := hlast a (by simp)
    obtain ⟨mid, hfirst, hlastStep⟩ := Option.bind_eq_some_iff.mp (System.run?_append.symm.trans hrun)
    obtain ⟨s₁, hstep, hdone⟩ := Option.bind_eq_some_iff.mp hlastStep
    cases hdone
    have hend : answerOf i mid = none := by
      rw [Option.eq_none_iff_forall_ne_some]
      intro r hr
      obtain ⟨u, hu, hresult⟩ := Option.bind_eq_some_iff.mp hr
      exact (answered_step hu (Prog.result?_eq_some.mp hresult) hstep).1 rfl
    obtain ⟨⟨t', ht', hawaits'⟩, hstore⟩ :=
      awaits_run hstaged hi hawaits hguard.left hfirst hend
    rw [awaits_last ht' hawaits' hstep hanswer hfailed, hstore, Option.map_map,
      System.trace_append hfirst]
    simp [System.trace, othersWrite, Function.comp_def, hstep]

end

/-- A call that is answered with an error, from before its first operation to its last one, in a run
of any edits of which no other puts the old file of this call's exam back. -/
structure FailedEdit (w : EditWorld) where
  before : Threads EditJob EditWorld
  after : Threads EditJob EditWorld
  start : List EditAction
  during : List EditAction
  i : Nat
  call : EditJob
  id : Int32
  resp : Http.Response
  reached : (edits w).run? (edits w).initial start = some before
  run : (edits w).run? before during = some after
  waits : before.threads[i]? = some call
  untouched : call.history = []
  named : stoi (getExamId call.input.req) = some id
  head : ∀ a ∈ during.head?, a = .step i
  last : ∀ a ∈ during.getLast?, a = .step i
  answered : answerOf i after = some (.response resp)
  failed : 400 ≤ resp.status
  alone : (edits w).Guarded (OthersSucceed id i) before during

namespace FailedEdit

variable {w : EditWorld} (f : FailedEdit w)

/-- What the others write to the exam meanwhile. -/
def others : List EditForm := (edits w).trace (othersWrite f.id f.i) f.before f.during

/-- The exam is as if only the others had written to it. -/
def Restored : Prop :=
  f.after.world.store.getById f.id = (f.before.world.store.getById f.id).map (applyAll f.others)

/-- If the exam is there and the edit is accepted, somebody else sets its name or it was the same,
and nobody else sets another file. -/
def Harmless : Prop :=
  ∀ form old, f.call.input.accepted = some (f.id, form) →
    f.before.world.store.getById f.id = some old →
      (f.others = [] → form.name = old.name) ∧
        ∀ last ∈ lastFile f.others, last.pdfName = old.filePath ∧
          Int64.ofNat last.pdfData.length = old.sizeBytes

theorem staged : AllStaged f.before :=
  allStaged_run (fun _ ht => absurd ht List.not_mem_nil) f.reached

theorem stage : EditStage f.call := f.staged _ (List.mem_of_getElem? f.waits)

variable {f} {form : EditForm} {old : Exam}

theorem program_eq (haccepted : f.call.input.accepted = some (f.id, form)) :
    f.call.program =
      .call (.update f.id form.apply) (afterWrite f.call.input f.id form) := by
  have hnil := f.untouched
  cases f.stage with
  | refused resp hinput hprogram =>
      rw [haccepted] at hinput
      cases hinput
  | fresh id' form' hinput hhistory hprogram =>
      cases haccepted.symm.trans hinput
      exact hprogram
  | uploading id' form' old' hinput hlength hprogram => simp [hnil] at hlength
  | restoring id' form' old' hinput hlength hprogram => simp [hnil] at hlength
  | answered resp hhistory hprogram => exact absurd hnil hhistory

/-- A call without a step was refused, and nothing has happened. -/
theorem of_during_eq_nil (h : f.during = []) : f.Restored ∧ f.Harmless := by
  have hrun := f.run
  rw [h] at hrun
  obtain hsame : f.before = f.after := Option.some.inj hrun
  constructor
  · rw [Restored, others, h, hsame]
    cases f.after.world.store.getById f.id <;> rfl
  · intro form old haccepted
    have hanswer := f.answered
    rw [← hsame, answerOf, f.waits, Option.bind_some, program_eq haccepted] at hanswer
    cases hanswer

/-- A call with a step was accepted. -/
theorem accepted_of_step {rest : List EditAction} (h : f.during = .step f.i :: rest) :
    ∃ form, f.call.input.accepted = some (f.id, form) := by
  have hrun := f.run
  rw [h] at hrun
  obtain ⟨mid, hstep, -⟩ := Option.bind_eq_some_iff.mp hrun
  cases haccepted : f.call.input.accepted with
  | none =>
      obtain ⟨resp, hprogram⟩ : ∃ resp, f.call.program = respond resp := by
        have hnil := f.untouched
        cases f.stage with
        | refused resp _ hprogram => exact ⟨resp, hprogram⟩
        | fresh id' form' hinput => cases haccepted.symm.trans hinput
        | uploading id' form' old' hinput => cases haccepted.symm.trans hinput
        | restoring id' form' old' hinput => cases haccepted.symm.trans hinput
        | answered resp hhistory => exact absurd hnil hhistory
      exact absurd rfl (answered_step f.waits hprogram hstep).1
  | some pair =>
      obtain ⟨id', form⟩ := pair
      obtain rfl : f.id = id' := Option.some.inj (f.named.symm.trans (named_of_accepted haccepted))
      exact ⟨form, rfl⟩

/-- An accepted edit that fails either finds no exam, or writes its name and its file and then puts
the old file back. -/
theorem store_of_accepted {rest : List EditAction} (h : f.during = .step f.i :: rest)
    (haccepted : f.call.input.accepted = some (f.id, form)) :
    (f.before.world.store.getById f.id = none ∧ f.after.world.store.getById f.id = none) ∨
      ∃ old, f.before.world.store.getById f.id = some old ∧ form.pdfData ≠ [] ∧
        f.after.world.store.getById f.id =
          some (restoreFile old (applyAll f.others (form.apply old))) := by
  have hrun := f.run
  have hlast : ∀ a ∈ rest.getLast?, a = .step f.i := fun a ha => f.last a (by
    rw [h, List.getLast?_cons, Option.mem_def.mp ha]
    rfl)
  have halone := f.alone
  rw [h] at hrun halone
  obtain ⟨mid, hstep, hrest⟩ := Option.bind_eq_some_iff.mp hrun
  obtain ⟨⟨t, ht, hinput, hprogram⟩, hstore⟩ := write_step f.waits (program_eq haccepted) hstep
  -- a call that is answered by its first step has no other one
  have hnil : ∀ {resp}, t.program = respond resp → rest = [] ∧ f.resp = resp := by
    intro resp hdone
    obtain ⟨hnot, hkept⟩ := answered_run ht hdone hrest
    have hanswer := f.answered
    rw [answerOf, hkept, Option.bind_some, hdone] at hanswer
    refine ⟨?_, by cases hanswer; rfl⟩
    rcases List.eq_nil_or_concat rest with rfl | ⟨first, a, rfl⟩
    · rfl
    · obtain rfl : a = .step f.i := hlast a (by simp)
      exact absurd (by simp) hnot
  cases hold : f.before.world.store.getById f.id with
  | none =>
      rw [hold] at hprogram hstore
      obtain ⟨rfl, -⟩ := hnil hprogram
      cases hrest
      exact Or.inl ⟨rfl, hstore⟩
  | some old =>
      rw [hold] at hprogram hstore
      refine Or.inr ⟨old, rfl, ?_⟩
      by_cases hfile : form.pdfData = []
      · obtain ⟨-, hresp⟩ := hnil (hprogram.trans (if_pos hfile))
        have hfailed := f.failed
        rw [hresp] at hfailed
        exact absurd hfailed (show ¬ 400 ≤ 200 by decide)
      · refine ⟨hfile, ?_⟩
        have hstaged : AllStaged mid := allStaged_step f.staged hstep
        have hawaits : Awaits f.id form old t := Or.inl (by rw [hprogram, hinput]; exact if_neg hfile)
        have hothers : f.others = (edits w).trace (othersWrite f.id f.i) mid rest := by
          rw [others, h]
          simp [System.trace, othersWrite, hstep]
        rw [hothers, awaits_until_last hstaged ht hawaits (halone.2 mid hstep) hrest hlast
          f.answered f.failed, hstore]
        rfl

/-- A failed edit leaves its exam to the others exactly if it is harmless. -/
theorem restored_iff (f : FailedEdit w) : f.Restored ↔ f.Harmless := by
  cases hduring : f.during with
  | nil =>
      obtain ⟨hrestored, hharmless⟩ := of_during_eq_nil hduring
      exact iff_of_true hrestored hharmless
  | cons a rest =>
      obtain rfl : a = .step f.i := f.head a (by rw [hduring]; rfl)
      obtain ⟨form, haccepted⟩ := accepted_of_step hduring
      unfold Restored Harmless
      rcases store_of_accepted hduring haccepted with ⟨hbefore, hafter⟩ | ⟨old, hbefore, hfile, hafter⟩
      · rw [hbefore, hafter]
        exact iff_of_true rfl fun form old _ hold => by cases hold
      · have hforms : ∀ form', f.call.input.accepted = some (f.id, form') → form' = form := by
          intro form' h
          cases haccepted.symm.trans h
          rfl
        rw [hbefore, hafter, Option.map_some, Option.some_inj, restoreFile_eq_iff hfile]
        constructor
        · rintro h form' old' haccepted' ⟨⟩
          obtain rfl := hforms form' haccepted'
          exact h
        · exact fun h => h form old haccepted rfl

end FailedEdit

/-! ### A failed upload -/

/-- A new name and a new file for exam 1. -/
def renameRequest : EditRequest where
  env := {}
  req :=
    { method := str "POST"
      path := str "/api/exams/1/edit"
      params := OrderedMap.empty.insert (str "id") (str "1")
      headers := OrderedMap.empty.insert (str "Content-Type") (str "multipart/form-data; boundary=x")
      body := str "--x\r\nContent-Disposition: form-data; name=\"name\"\r\n\r\nUAS\r\n" ++
        str "--x\r\nContent-Disposition: form-data; name=\"file\"; filename=\"uas.pdf\"\r\n\r\n" ++
        str "%PDF-1.4 %%EOF\r\n--x--\r\n" }
  isEdit := by decide +kernel

/-- A store of one exam, and uploads that all fail. -/
def renameWorld : EditWorld where
  store :=
    { exams := [{ id := 1, name := str "UTS", filePath := str "uts.pdf", sizeBytes := 14 }]
      nextId := 2
      seenTokens := ∅ }
  outcomes := fun _ => false

/-- The request of `renameRequest` with no other one. -/
def failedRename : FailedEdit renameWorld where
  before := ⟨renameWorld, [Job.start EditRequest.program renameRequest]⟩
  after := ((edits renameWorld).run?
    ⟨renameWorld, [Job.start EditRequest.program renameRequest]⟩
    [.step 0, .step 0, .step 0]).get (by decide +kernel)
  start := [.arrive renameRequest]
  during := [.step 0, .step 0, .step 0]
  i := 0
  call := Job.start EditRequest.program renameRequest
  id := 1
  resp := uploadFailed
  reached := rfl
  run := (Option.some_get _).symm
  waits := rfl
  untouched := rfl
  named := by decide +kernel
  head := by rintro _ ⟨⟩; rfl
  last := by rintro _ ⟨⟩; rfl
  answered := by decide +kernel
  failed := by decide
  alone := ⟨fun h => absurd rfl h, fun _ _ => ⟨fun h => absurd rfl h, fun _ _ =>
    ⟨fun h => absurd rfl h, fun _ _ => trivial⟩⟩⟩

theorem not_restored : ¬ ∀ w (f : FailedEdit w), f.Restored := by
  intro h
  have hname := congrArg (Option.map Exam.name) (h _ failedRename)
  exact absurd hname (by decide +kernel)

end ExamVan.Admin
