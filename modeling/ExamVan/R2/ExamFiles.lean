import ExamVan.Admin.Upload
import ExamVan.R2.Client

/-!
# The files of the exams

An exam's file is uploaded under the exam's id and the file's name, and looked for afterwards. Files
from before lie under their names alone: a student is sent to the one of these that has the same name,
and a deleted exam takes it away.
-/

namespace ExamVan.R2

open ByteString SigV4 Admin

variable (S : Suite)

/-- The default `content_type` of an upload. -/
def pdfType : Bytes := str "application/pdf"

/-- `client.upload(key, data) && client.verify(key)` -/
def storeFile (svc : Service) (cfg : R2Config) (testMode : Bool) (examId : Int32) (filePath data : Bytes)
    (attempts : Nat → Attempt) (look : Attempt) (objects : Objects) : Bool × Objects :=
  let key := objectKeyForExam examId filePath
  let uploaded := upload S svc cfg testMode key data pdfType attempts objects
  if uploaded.1 then verify S svc cfg testMode key look uploaded.2 else uploaded

/-- The cleanup of an exam that cannot be added. -/
def dropFile (svc : Service) (cfg : R2Config) (testMode : Bool) (examId : Int32) (filePath : Bytes)
    (a : Attempt) (objects : Objects) : Objects :=
  (remove S svc cfg testMode (objectKeyForExam examId filePath) a objects).2

/-- The removal of both keys when an exam is deleted; a failure is only logged. -/
def deleteFiles (svc : Service) (cfg : R2Config) (testMode : Bool) (examId : Int32) (filePath : Bytes)
    (first second : Attempt) (objects : Objects) : Objects :=
  let keys := [(objectKeyPdfLegacy filePath, first), (objectKeyForExam examId filePath, second)]
  keys.foldl (fun objects key => (remove S svc cfg testMode key.1 key.2 objects).2) objects

/-- The key that `exam_pdf` signs. -/
def pdfKeyFor (svc : Service) (cfg : R2Config) (testMode : Bool) (examId : Int32) (filePath : Bytes)
    (first second : Attempt) (objects : Objects) : Bytes :=
  let key := resolveExistingPdfKey S svc cfg testMode examId filePath first second objects
  if key = [] then objectKeyForExam examId filePath else key

/-- What is done to the files, with the names as they are uploaded. -/
inductive FileOp
  | store (examId : Int32) (name data : Bytes) (attempts : Nat → Attempt) (look : Attempt)
  | drop (examId : Int32) (name : Bytes) (a : Attempt)
  | delete (examId : Int32) (name : Bytes) (first second : Attempt)

namespace FileOp

def examId : FileOp → Int32
  | store examId .. | drop examId .. | delete examId .. => examId

def name : FileOp → Bytes
  | store _ name .. | drop _ name _ | delete _ name .. => name

def Timed : FileOp → Prop
  | store _ _ _ attempts look => (∀ i, (attempts i).Timed) ∧ look.Timed
  | drop _ _ a => a.Timed
  | delete _ _ first second => first.Timed ∧ second.Timed

def run (svc : Service) (cfg : R2Config) : FileOp → Objects → Objects
  | store examId name data attempts look, objects =>
      (storeFile S svc cfg false examId (sanitizeFilename name) data attempts look objects).2
  | drop examId name a, objects => dropFile S svc cfg false examId (sanitizeFilename name) a objects
  | delete examId name first second, objects =>
      deleteFiles S svc cfg false examId (sanitizeFilename name) first second objects

end FileOp

def runFiles (svc : Service) (cfg : R2Config) (ops : List FileOp) (objects : Objects) : Objects :=
  ops.foldl (fun objects op => op.run S svc cfg objects) objects

/-! ### Names and paths -/

theorem mem_of_mem_stemOf {s : Bytes} {c : UInt8} (h : c ∈ stemOf s) : c ∈ s := by
  unfold stemOf at h
  split_ifs at h
  · exact (List.rdropWhile_prefix _ _).subset (List.mem_of_mem_dropLast h)
  · exact h

/-- The bytes of a name that is stored. -/
theorem isFilenameByte_of_mem {name : Bytes} {c : UInt8} (h : c ∈ sanitizeFilename name) :
    isFilenameByte c = true := by
  rw [sanitizeFilename_eq] at h
  rcases List.mem_append.mp (List.mem_of_mem_take h) with h | h
  · have hmem := mem_of_mem_stemOf h
    split_ifs at hmem
    · have hdefault : ∀ c ∈ str "exam.pdf", isFilenameByte c = true := by decide
      exact hdefault c hmem
    · exact (List.mem_filter.mp hmem).2
  · have hextension : ∀ c ∈ str ".pdf", isFilenameByte c = true := by decide
    exact hextension c h

theorem four_le_length (name : Bytes) : 4 ≤ (sanitizeFilename name).length := by
  have hfour : (str ".pdf").length = 4 := rfl
  rw [sanitizeFilename_eq, List.length_take, List.length_append, hfour]
  omega

/-- A path whose segments are no dots is what the store looks for. -/
theorem plain_intercalate {segments : List Bytes} (hne : segments ≠ [])
    (h : ∀ segment ∈ segments, chr '/' ∉ segment ∧ segment ≠ str "." ∧ segment ≠ str "..") :
    Percent.Plain ([chr '/'].intercalate segments) := by
  unfold Percent.Plain
  rw [List.splitOn_intercalate _ (fun segment hsegment => (h segment hsegment).1) hne]
  exact fun segment hsegment => (h segment hsegment).2

theorem ne_dots {segment : Bytes} (h : 3 ≤ segment.length) :
    segment ≠ str "." ∧ segment ≠ str ".." := by
  constructor <;> rintro rfl <;> exact absurd h (by decide)

variable {S} {cfg : R2Config} {host : Bytes} {now : Int} {secretOf : Bytes → Option Bytes} {skew : Nat}
  {examId : Int32} {name data : Bytes} {objects : Objects}

theorem segment_bucket (h : cfg.Sound host) :
    chr '/' ∉ cfg.bucket ∧ cfg.bucket ≠ str "." ∧ cfg.bucket ≠ str ".." := by
  refine ⟨fun hmem => ?_, ne_dots h.bucket.1⟩
  exact absurd (h.bucket.2 _ hmem) (by decide)

theorem segment_name (name : Bytes) : chr '/' ∉ sanitizeFilename name ∧
    sanitizeFilename name ≠ str "." ∧ sanitizeFilename name ≠ str ".." := by
  refine ⟨fun hmem => absurd (isFilenameByte_of_mem hmem) (by decide), ne_dots ?_⟩
  have hlength := four_le_length name
  omega

theorem segment_intText (examId : Int32) : chr '/' ∉ intText examId.toInt ∧
    intText examId.toInt ≠ str "." ∧ intText examId.toInt ≠ str ".." := by
  have hbyte : ∀ c ∈ intText examId.toInt, isDigit c = true ∨ c = chr '-' := by
    intro c hc
    unfold intText at hc
    split_ifs at hc
    · rcases List.mem_cons.mp hc with rfl | hc
      · exact .inr rfl
      · exact .inl (isDigit_of_mem_natText hc)
    · exact .inl (isDigit_of_mem_natText hc)
  refine ⟨fun hmem => absurd (hbyte _ hmem) (by decide), fun heq => ?_, fun heq => ?_⟩
  · exact absurd (hbyte (chr '.') (heq ▸ by decide)) (by decide)
  · exact absurd (hbyte (chr '.') (heq ▸ by decide)) (by decide)

theorem plain_own (h : cfg.Sound host) (examId : Int32) (name : Bytes) :
    Percent.Plain (cfg.object (objectKeyForExam examId (sanitizeFilename name))) := by
  have hslash : str "/" = [chr '/'] := by decide
  have hexams : str "exams/" = str "exams" ++ [chr '/'] := by decide
  have hpath : cfg.object (objectKeyForExam examId (sanitizeFilename name)) = [chr '/'].intercalate
      [[], cfg.bucket, str "exams", intText examId.toInt, sanitizeFilename name] := by
    simp [R2Config.object, objectKeyForExam, List.intercalate, hslash, hexams]
  rw [hpath]
  apply plain_intercalate (List.cons_ne_nil _ _)
  simp only [List.forall_mem_cons, List.not_mem_nil, false_imp_iff, implies_true, and_true]
  exact ⟨by decide, segment_bucket h, by decide, segment_intText examId, segment_name name⟩

theorem plain_legacy (h : cfg.Sound host) (name : Bytes) :
    Percent.Plain (cfg.object (objectKeyPdfLegacy (sanitizeFilename name))) := by
  have hslash : str "/" = [chr '/'] := by decide
  have hpdfs : str "pdfs/" = str "pdfs" ++ [chr '/'] := by decide
  have hpath : cfg.object (objectKeyPdfLegacy (sanitizeFilename name)) = [chr '/'].intercalate
      [[], cfg.bucket, str "pdfs", sanitizeFilename name] := by
    simp [R2Config.object, objectKeyPdfLegacy, List.intercalate, hslash, hpdfs]
  rw [hpath]
  apply plain_intercalate (List.cons_ne_nil _ _)
  simp only [List.forall_mem_cons, List.not_mem_nil, false_imp_iff, implies_true, and_true]
  exact ⟨by decide, segment_bucket h, by decide, segment_name name⟩

theorem object_inj {key key' : Bytes} : cfg.object key = cfg.object key' ↔ key = key' := by
  unfold R2Config.object
  exact List.append_right_inj _

/-- An exam's own file is no other exam's, and none from before. -/
theorem own_eq_own_iff {examId' : Int32} {filePath filePath' : Bytes} :
    objectKeyForExam examId filePath = objectKeyForExam examId' filePath' ↔
      examId = examId' ∧ filePath = filePath' := by
  have hslash : str "/" = [chr '/'] := by decide
  unfold objectKeyForExam
  simp only [hslash, List.append_assoc, List.append_cancel_left_eq, List.singleton_append]
  exact intText_append_inj (by decide) (by decide)

theorem own_ne_legacy (examId : Int32) (filePath filePath' : Bytes) :
    objectKeyForExam examId filePath ≠ objectKeyPdfLegacy filePath' := by
  have hown : (objectKeyForExam examId filePath).head? = some (chr 'e') := rfl
  have hlegacy : (objectKeyPdfLegacy filePath').head? = some (chr 'p') := rfl
  intro heq
  rw [heq, hlegacy] at hown
  exact absurd hown (by decide)

/-! ### What the operations do -/

theorem storeFile_snd (h : cfg.Sound host) (hsecret : secretOf cfg.accessKey = some cfg.secretKey)
    {attempts : Nat → Attempt} {look : Attempt} (hlook : look.Timed) (objects : Objects) :
    (storeFile S (store S secretOf skew) cfg false examId (sanitizeFilename name) data attempts look
        objects).2 =
      (upload S (store S secretOf skew) cfg false (objectKeyForExam examId (sanitizeFilename name)) data
        pdfType attempts objects).2 := by
  unfold storeFile
  dsimp only
  split_ifs
  · rw [verify_eq h hsecret (plain_own h examId name) hlook]
  · rfl

/-- An exam's file is stored if an attempt and the look after it have their effect and are answered. -/
theorem storeFile_fst_iff (h : cfg.Sound host) (hsecret : secretOf cfg.accessKey = some cfg.secretKey)
    {attempts : Nat → Attempt} (htimed : ∀ i, (attempts i).Timed) {look : Attempt} (hlook : look.Timed)
    (objects : Objects) :
    (storeFile S (store S secretOf skew) cfg false examId (sanitizeFilename name) data attempts look
        objects).1 = true ↔
      (∃ a ∈ tries ((List.range kMaxAttempts).map attempts), a.Applies skew ∧ a.answered = true) ∧
        look.Applies skew ∧ look.answered = true := by
  unfold storeFile
  dsimp only
  rw [upload_eq h hsecret (plain_own h examId name) htimed,
    verify_eq h hsecret (plain_own h examId name) hlook]
  by_cases hany : ∃ a ∈ tries ((List.range kMaxAttempts).map attempts),
      a.Applies skew ∧ a.answered = true
  · have happlies : ∃ a ∈ tries ((List.range kMaxAttempts).map attempts), a.Applies skew := by
      obtain ⟨a, ha, happlies, -⟩ := hany
      exact ⟨a, ha, happlies⟩
    rw [if_pos (decide_eq_true hany), if_pos happlies]
    dsimp only
    rw [decide_eq_true_eq, put_self]
    exact ⟨fun hl => ⟨hany, hl.1, hl.2.1⟩, fun hl => ⟨hl.2.1, hl.2.2, rfl⟩⟩
  · rw [if_neg (by simpa using hany)]
    exact iff_of_false (by simpa using hany) fun hl => hany hl.1

/-- An exam's file is there once it has been stored, and nothing else ever changes. -/
theorem storeFile_spec (h : cfg.Sound host) (hsecret : secretOf cfg.accessKey = some cfg.secretKey)
    {attempts : Nat → Attempt} (htimed : ∀ i, (attempts i).Timed) {look : Attempt} (hlook : look.Timed)
    (examId : Int32) (name data : Bytes) (objects : Objects) :
    let path := cfg.object (objectKeyForExam examId (sanitizeFilename name))
    let stored := storeFile S (store S secretOf skew) cfg false examId (sanitizeFilename name) data
      attempts look objects
    (stored.1 = true → stored.2 = objects.put path data) ∧
      (stored.2 = objects ∨ stored.2 = objects.put path data) := by
  intro path stored
  have hstored : stored.2 = _ := storeFile_snd h hsecret hlook objects
  rw [hstored, upload_eq h hsecret (plain_own h examId name) htimed objects]
  constructor
  · intro hok
    obtain ⟨⟨a, ha, happlies, -⟩, -⟩ := (storeFile_fst_iff h hsecret htimed hlook objects).mp hok
    exact if_pos ⟨a, ha, happlies⟩
  · dsimp only
    split_ifs
    · exact .inr rfl
    · exact .inl rfl

theorem remove_spec {key : Bytes} (h : cfg.Sound host)
    (hsecret : secretOf cfg.accessKey = some cfg.secretKey) (hplain : Percent.Plain (cfg.object key))
    {a : Attempt} (ha : a.Timed) (objects : Objects) (path : Bytes) :
    (remove S (store S secretOf skew) cfg false key a objects).2 path = objects path ∨
      (path = cfg.object key ∧
        (remove S (store S secretOf skew) cfg false key a objects).2 path = none) := by
  rw [remove_eq h hsecret hplain ha]
  split_ifs
  · by_cases hpath : path = cfg.object key
    · exact .inr ⟨hpath, by rw [hpath]; exact Function.update_self ..⟩
    · exact .inl (Function.update_of_ne hpath ..)
  · exact .inl rfl

/-- The key that is signed is that of the file from before if it is found. -/
theorem pdfKeyFor_eq (h : cfg.Sound host) (hsecret : secretOf cfg.accessKey = some cfg.secretKey)
    {first second : Attempt} (hfirst : first.Timed) (objects : Objects) :
    pdfKeyFor S (store S secretOf skew) cfg false examId (sanitizeFilename name) first second objects =
      if first.Applies skew ∧ first.answered = true ∧
          (objects (cfg.object (objectKeyPdfLegacy (sanitizeFilename name)))).isSome then
        objectKeyPdfLegacy (sanitizeFilename name)
      else objectKeyForExam examId (sanitizeFilename name) := by
  have hne : objectKeyPdfLegacy (sanitizeFilename name) ≠ [] := List.cons_ne_nil _ _
  unfold pdfKeyFor resolveExistingPdfKey
  dsimp only
  rw [if_pos (enabled_sound h), verify_eq h hsecret (plain_legacy h name) hfirst]
  simp only [decide_eq_true_eq]
  have hnil : ([] : Bytes) = [] := rfl
  have hown : objectKeyForExam examId (sanitizeFilename name) ≠ [] := List.cons_ne_nil _ _
  split_ifs <;> rfl

/-! ### Runs -/

/-- An operation writes nothing but its exam's own file, and takes away nothing else but the file from
before with the same name. -/
theorem run_spec (h : cfg.Sound host) (hsecret : secretOf cfg.accessKey = some cfg.secretKey)
    {op : FileOp} (htimed : op.Timed) (objects : Objects) (path : Bytes) :
    op.run S (store S secretOf skew) cfg objects path = objects path ∨
      path = cfg.object (objectKeyForExam op.examId (sanitizeFilename op.name)) ∨
      (path = cfg.object (objectKeyPdfLegacy (sanitizeFilename op.name)) ∧
        op.run S (store S secretOf skew) cfg objects path = none) := by
  cases op with
  | store examId name data attempts look =>
      change (storeFile S _ cfg false examId _ data attempts look objects).2 path = _ ∨ _
      obtain hsame | hput := (storeFile_spec h hsecret htimed.1 htimed.2 examId name data objects).2
      · exact .inl (congrFun hsame path)
      · by_cases hpath : path = cfg.object (objectKeyForExam examId (sanitizeFilename name))
        · exact .inr (.inl hpath)
        · rw [hput]
          exact .inl (put_of_ne hpath objects data)
  | drop examId name a =>
      obtain hsame | ⟨hpath, -⟩ := remove_spec h hsecret (plain_own h examId name) htimed objects path
      · exact .inl hsame
      · exact .inr (.inl hpath)
  | delete examId name first second =>
      obtain hsecond | ⟨hpath, -⟩ := remove_spec h hsecret (plain_own h examId name) htimed.2
        (remove S (store S secretOf skew) cfg false (objectKeyPdfLegacy (sanitizeFilename name)) first
          objects).2 path
      · obtain hfirst | ⟨hpath, hnone⟩ := remove_spec h hsecret (plain_legacy h name) htimed.1 objects path
        · exact .inl (hsecond.trans hfirst)
        · exact .inr (.inr ⟨hpath, hsecond.trans hnone⟩)
      · exact .inr (.inl hpath)

/-- The operations on other exams, or on other names, leave an exam's file alone. -/
theorem runFiles_own (h : cfg.Sound host) (hsecret : secretOf cfg.accessKey = some cfg.secretKey)
    {ops : List FileOp} (htimed : ∀ op ∈ ops, op.Timed)
    (hother : ∀ op ∈ ops, op.examId = examId → sanitizeFilename op.name ≠ sanitizeFilename name)
    (objects : Objects) :
    runFiles S (store S secretOf skew) cfg ops objects
        (cfg.object (objectKeyForExam examId (sanitizeFilename name))) =
      objects (cfg.object (objectKeyForExam examId (sanitizeFilename name))) := by
  induction ops generalizing objects with
  | nil => rfl
  | cons op ops ih =>
      rw [List.forall_mem_cons] at htimed hother
      refine (ih htimed.2 hother.2 _).trans ?_
      obtain hsame | hown | ⟨hlegacy, -⟩ := run_spec (S := S) h hsecret htimed.1 objects
        (cfg.object (objectKeyForExam examId (sanitizeFilename name)))
      · exact hsame
      · obtain ⟨hid, hname⟩ := own_eq_own_iff.mp (object_inj.mp hown)
        exact absurd hname.symm (hother.1 hid.symm)
      · exact absurd (object_inj.mp hlegacy) (own_ne_legacy _ _ _)

/-- No operation brings a file from before. -/
theorem runFiles_legacy (h : cfg.Sound host) (hsecret : secretOf cfg.accessKey = some cfg.secretKey)
    {ops : List FileOp} (htimed : ∀ op ∈ ops, op.Timed) {objects : Objects} (filePath : Bytes)
    (hnone : objects (cfg.object (objectKeyPdfLegacy filePath)) = none) :
    runFiles S (store S secretOf skew) cfg ops objects (cfg.object (objectKeyPdfLegacy filePath)) =
      none := by
  induction ops generalizing objects with
  | nil => exact hnone
  | cons op ops ih =>
      rw [List.forall_mem_cons] at htimed
      apply ih htimed.2
      obtain hsame | hown | ⟨-, hgone⟩ := run_spec (S := S) h hsecret htimed.1 objects
        (cfg.object (objectKeyPdfLegacy filePath))
      · exact hsame.trans hnone
      · exact absurd (object_inj.mp hown).symm (own_ne_legacy _ _ _)
      · exact hgone

/-! ### Main result -/

end ExamVan.R2
