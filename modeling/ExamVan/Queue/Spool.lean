import ExamVan.Lib.JsonNames
import ExamVan.Lib.JsonQuotes
import ExamVan.Queue.RoundTrip

/-!
# The spool of failed jobs

What Redis does not take, `append_spool_line` adds to a local file, one line a job. The line is made
to look like `{"ts":"…","job":{…}}`, but `to_json` stands in it with its quotes escaped and without
quotes around it. So the lines are those of the jobs in order, no line is JSON, and `from_json` finds
no job in one.
-/

namespace ExamVan.Queue

open ByteString Helpers JsonText

/-! ### Writing the spool -/

def kSpoolPath : Bytes := str "/tmp/examvan-failed-jobs.jsonl"

/-- `EXAMVAN_FAILED_SPOOL`, or the default. -/
def spoolPath (env : Option Bytes) : Bytes := if env.getD [] = [] then kSpoolPath else env.getD []

structure Disk where
  /-- whether a stream opens for appending, once `mkdir` has been tried -/
  opens : Bytes → Bool
  text : Bytes → Bytes

/-- The line without its end. -/
def spoolRecord (now : Int) (job : SubmissionJob) : Bytes :=
  str "\x7b\"ts\":\"" ++ formatIsoUtc now ++ str "\",\"job\":" ++ jsonEscape (toJson job) ++ str "\x7d"

def appendSpoolLine (env : Option Bytes) (now : Int) (job : SubmissionJob) (disk : Disk) : Disk :=
  let path := spoolPath env
  if disk.opens path then
    let text := disk.text path ++ (spoolRecord now job ++ [10])
    { disk with text := Function.update disk.text path text }
  else disk

/-- What became of a call of an `LPUSH` hook. -/
inductive Answer
  | pushed
  | refused
  | thrown
  deriving DecidableEq

/-- `push_failed`: whether the job goes to the spool. The hook that tells nothing is asked only
when there is no other. -/
def spools (lpushChecked lpush : Option Answer) : Bool :=
  match lpushChecked, lpush with
  | none, none => true
  | some answer, _ => answer ≠ .pushed
  | none, some answer => answer = .thrown

/-- A call of `push_failed`. -/
structure Failure where
  now : Int
  job : SubmissionJob
  lpushChecked : Option Answer
  lpush : Option Answer

def pushFailed (env : Option Bytes) (disk : Disk) (f : Failure) : Disk :=
  if spools f.lpushChecked f.lpush then appendSpoolLine env f.now f.job disk else disk

/-- Successive calls. -/
def spooled (env : Option Bytes) (entries : List (Int × SubmissionJob)) (disk : Disk) : Disk :=
  entries.foldl (fun disk e => appendSpoolLine env e.1 e.2 disk) disk

/-- Every line has its end. -/
def fileLines (file : Bytes) : List Bytes := (file.splitOn 10).dropLast

/-! ### One line for each job -/

section

variable {env : Option Bytes} {disk : Disk}

theorem opens_appendSpoolLine (env : Option Bytes) (now : Int) (job : SubmissionJob) (disk : Disk) :
    (appendSpoolLine env now job disk).opens = disk.opens := by
  unfold appendSpoolLine
  dsimp only
  split <;> rfl

theorem text_appendSpoolLine (h : disk.opens (spoolPath env) = true) (now : Int)
    (job : SubmissionJob) : (appendSpoolLine env now job disk).text (spoolPath env) =
      disk.text (spoolPath env) ++ (spoolRecord now job ++ [10]) := by
  unfold appendSpoolLine
  dsimp only
  rw [if_pos h]
  exact Function.update_self _ _ _

theorem text_appendSpoolLine_of_ne {path : Bytes} (hne : path ≠ spoolPath env) (now : Int)
    (job : SubmissionJob) : (appendSpoolLine env now job disk).text path = disk.text path := by
  unfold appendSpoolLine
  dsimp only
  split
  · exact Function.update_of_ne hne _ _
  · rfl

theorem spooled_cons (env : Option Bytes) (e : Int × SubmissionJob)
    (entries : List (Int × SubmissionJob)) (disk : Disk) :
    spooled env (e :: entries) disk = spooled env entries (appendSpoolLine env e.1 e.2 disk) := rfl

/-- Other files stay as they are. -/
theorem text_spooled_of_ne {path : Bytes} (hne : path ≠ spoolPath env)
    (entries : List (Int × SubmissionJob)) (disk : Disk) :
    (spooled env entries disk).text path = disk.text path := by
  induction entries generalizing disk with
  | nil => rfl
  | cons e entries ih => rw [spooled_cons, ih, text_appendSpoolLine_of_ne hne]

theorem text_spooled (h : disk.opens (spoolPath env) = true) (entries : List (Int × SubmissionJob)) :
    (spooled env entries disk).text (spoolPath env) =
      disk.text (spoolPath env) ++ entries.flatMap fun e => spoolRecord e.1 e.2 ++ [10] := by
  induction entries generalizing disk with
  | nil => exact (List.append_nil _).symm
  | cons e entries ih =>
      have hopens : (appendSpoolLine env e.1 e.2 disk).opens (spoolPath env) = true := by
        rw [opens_appendSpoolLine, h]
      rw [spooled_cons, ih hopens, text_appendSpoolLine h, List.flatMap_cons, List.append_assoc]

theorem spooled_of_not_opens (h : disk.opens (spoolPath env) = false)
    (entries : List (Int × SubmissionJob)) : spooled env entries disk = disk := by
  induction entries with
  | nil => rfl
  | cons e entries ih =>
      have hsame : appendSpoolLine env e.1 e.2 disk = disk := by simp [appendSpoolLine, h]
      rw [spooled_cons, hsame, ih]

/-- The spool after calls of `push_failed` is that of the jobs that Redis did not take. -/
theorem pushFailed_eq_spooled (env : Option Bytes) (failures : List Failure) (disk : Disk) :
    failures.foldl (pushFailed env) disk =
      spooled env ((failures.filter fun f => spools f.lpushChecked f.lpush).map
        fun f => (f.now, f.job)) disk := by
  induction failures generalizing disk with
  | nil => rfl
  | cons f failures ih =>
      rw [List.foldl_cons, ih, pushFailed]
      cases hspools : spools f.lpushChecked f.lpush with
      | false => rw [List.filter_cons_of_neg (by simp [hspools])]; rfl
      | true => rw [List.filter_cons_of_pos (by simpa using hspools)]; rfl

end

theorem fileLines_cons {line : Bytes} (h : 10 ∉ line) (rest : Bytes) :
    fileLines (line ++ 10 :: rest) = line :: fileLines rest := by
  rw [fileLines, List.splitOn_append_cons_self, List.splitOn_eq_singleton h, List.singleton_append,
    List.dropLast_cons_of_ne_nil (List.splitOn_ne_nil 10 rest)]
  rfl

theorem newline_notMem_jsonEscape (s : Bytes) : 10 ∉ jsonEscape s := by
  intro h
  obtain ⟨c, -, hc⟩ := List.mem_flatMap.mp h
  exact absurd (le_of_mem_escapeByte hc) (by decide)

theorem Unescaped.notMem {s : Bytes} (h : Unescaped s) : 10 ∉ s :=
  fun hmem => absurd (h _ hmem).2.2 (by decide)

theorem newline_notMem_spoolRecord (now : Int) (job : SubmissionJob) : 10 ∉ spoolRecord now job := by
  have htime := (unescaped_formatIsoUtc now).notMem
  have hjob := newline_notMem_jsonEscape (toJson job)
  simp only [spoolRecord, List.mem_append, not_or]
  exact ⟨⟨⟨⟨by decide, htime⟩, by decide⟩, hjob⟩, by decide⟩

/-- One line for each job, in order. -/
theorem fileLines_spooled {env : Option Bytes} {disk : Disk}
    (hopens : disk.opens (spoolPath env) = true) (hempty : disk.text (spoolPath env) = [])
    (entries : List (Int × SubmissionJob)) :
    fileLines ((spooled env entries disk).text (spoolPath env)) =
      entries.map fun e => spoolRecord e.1 e.2 := by
  rw [text_spooled hopens, hempty, List.nil_append]
  clear hopens hempty
  induction entries with
  | nil => rfl
  | cons e entries ih =>
      rw [List.flatMap_cons, List.append_assoc, List.singleton_append,
        fileLines_cons (newline_notMem_spoolRecord e.1 e.2), ih, List.map_cons]

/-! ### No line is JSON -/

open Mode

theorem after_of_unescaped {s : Bytes} (h : Unescaped s) : inside.after s = some inside :=
  after_of_forall fun c hc => next_inside_of_ne (h c hc).1 (h c hc).2.1

/-- The quotes of the job's first member come with a backslash, and no string is open there. -/
theorem exists_jsonEscape_toJson (job : SubmissionJob) :
    ∃ rest, jsonEscape (toJson job) = chr '{' :: chr '\\' :: rest := by
  obtain ⟨rest, hrest⟩ : ∃ rest, toJson job = chr '{' :: chr '"' :: rest := ⟨_, rfl⟩
  refine ⟨chr '"' :: jsonEscape rest, ?_⟩
  rw [hrest, jsonEscape_cons, jsonEscape_cons, escapeByte_quote]
  rfl

theorem after_spoolRecord (now : Int) (job : SubmissionJob) :
    outside.after (spoolRecord now job) = none := by
  obtain ⟨rest, hrest⟩ := exists_jsonEscape_toJson job
  have hhead : outside.after (str "\x7b\"ts\":\"") = some inside := by decide
  have htail : inside.after (str "\",\"job\":") = some outside := by decide
  rw [spoolRecord, hrest]
  simp only [List.append_assoc]
  rw [after_append, hhead, Option.bind_some,
    after_append_of_self (after_of_unescaped (unescaped_formatIsoUtc now)), after_append, htail]
  rfl

theorem spoolRecord_ne_render (now : Int) (job : SubmissionJob) (t : Text) :
    t.render ≠ spoolRecord now job := by
  intro h
  have hafter := after_render t
  rw [h, after_spoolRecord] at hafter
  cases hafter

/-! ### No line holds a job -/

/-- A text that does not end in the name has the quoted name nowhere in its escaped form. -/
theorem findSub_jsonEscape {name : Bytes} (hname : PlainName name) {s : Bytes}
    (hs : ¬ chr '"' :: name <:+ s) : findSub (needle name) (jsonEscape s) = none := by
  have hclosed := findSub_inside hname (fun c hc => absurd hc (by simp) : NoNameHead []) s
  rw [if_neg hs, findSub, if_neg (by simp [needle])] at hclosed
  exact findSub_eq_none_of_append hclosed

theorem spoolRecord_eq (now : Int) (job : SubmissionJob) :
    spoolRecord now job = chr '{' :: (quoted (str "ts") ++ chr ':' :: (quoted (formatIsoUtc now) ++
      chr ',' :: (quoted (str "job") ++ chr ':' :: jsonEscape (toJson job ++ [chr '}'])))) := by
  have hclosing : jsonEscape (toJson job ++ [chr '}']) = jsonEscape (toJson job) ++ [chr '}'] :=
    List.flatMap_append
  have htime : quoted (formatIsoUtc now) = chr '"' :: (formatIsoUtc now ++ [chr '"']) := by
    rw [quoted, jsonEscape_of_unescaped (unescaped_formatIsoUtc now)]
  rw [spoolRecord, hclosing, htime]
  simp only [List.append_assoc, List.cons_append]
  rfl

theorem not_hits_formatIsoUtc (now : Int) : ¬ Hits (str "job_id") (formatIsoUtc now) := by
  have hzone : chr 'Z' ∈ formatIsoUtc now := by simp [formatIsoUtc, strftime]
  have hquote : chr '"' ∉ formatIsoUtc now :=
    fun hmem => (unescaped_formatIsoUtc now _ hmem).1 rfl
  rw [hits_iff_of_quote_notMem hquote]
  intro heq
  rw [heq] at hzone
  exact absurd hzone (by decide)

/-- The reader of the queue finds no job id in a line of the spool. -/
theorem fromJson_spoolRecord (now : Int) (job : SubmissionJob) :
    fromJson (spoolRecord now job) = none := by
  have hname : PlainName (str "job_id") := by decide
  have hskip : ∀ {c : UInt8} (t : Bytes), chr '"' ≠ c →
      findSub (needle (str "job_id")) (c :: t) = findSub (needle (str "job_id")) t :=
    fun _ h => findSub_cons_of_ne h
  have hpayload : ¬ chr '"' :: str "job_id" <:+ toJson job ++ [chr '}'] := by
    rintro ⟨before, hsuffix⟩
    have hlast := congrArg List.getLast? hsuffix
    rw [show chr '"' :: str "job_id" = str "\"job_i" ++ [chr 'd'] from rfl, ← List.append_assoc,
      List.getLast?_concat, List.getLast?_concat] at hlast
    exact absurd hlast (by decide)
  have hfind : findSub (needle (str "job_id")) (spoolRecord now job) = none := by
    rw [spoolRecord_eq, hskip _ (by decide), findSub_quoted hname (noNameHead_cons (by decide)),
      if_neg (by decide), hskip _ (by decide), findSub_quoted hname (noNameHead_cons (by decide)),
      if_neg (not_hits_formatIsoUtc now), hskip _ (by decide),
      findSub_quoted hname (noNameHead_cons (by decide)), if_neg (by decide), hskip _ (by decide),
      findSub_jsonEscape hname hpayload]
  have hid : extract (spoolRecord now job) (str "job_id") = [] := by rw [extract, hfind]
  rw [fromJson, if_pos hid]

/-- A reader who cuts the line out by hand gets the text of the job. -/
theorem jsonUnescape_spoolRecord (now : Int) (job : SubmissionJob) :
    ∃ text, spoolRecord now job =
        str "\x7b\"ts\":\"" ++ formatIsoUtc now ++ str "\",\"job\":" ++ text ++ str "\x7d" ∧
      jsonUnescape text = toJson job :=
  ⟨jsonEscape (toJson job), rfl, jsonUnescape_jsonEscape _⟩

/-! ### Replaying the spool -/

/-- A member of that name is a string with the text, or the text itself. -/
def MemberYields (members : Members) (name text : Bytes) : Prop :=
  ∃ m ∈ members.own, decode m.1 = name ∧ (m.2.data = .string text ∨ m.2.render = text)

/-- A line of the spool from which the job can be taken up again. -/
def LineReplays (line : Bytes) (job : SubmissionJob) : Prop :=
  ∃ t : Text, ∃ lead members, t.render = line ∧ t.v = .object lead members ∧
    MemberYields members (str "job") (toJson job) ∧
    ∃ back, fromJson (toJson job) = some back ∧ back.jobId = job.jobId ∧
      back.examId = job.examId ∧ back.answers = job.answers

def Replays (file : Bytes) (jobs : List SubmissionJob) : Prop :=
  List.Forall₂ LineReplays (fileLines file) jobs

/-- Before the first line. -/
def Disk.fresh (opens : Bytes → Bool) : Disk := ⟨opens, fun _ => []⟩

theorem not_lineReplays (now : Int) (job job' : SubmissionJob) :
    ¬ LineReplays (spoolRecord now job) job' := by
  rintro ⟨t, -, -, hrender, -⟩
  exact spoolRecord_ne_render now job t hrender

/-- The spool of any job at all cannot be replayed. -/
theorem spool_replays_iff (env : Option Bytes) (opens : Bytes → Bool)
    (entries : List (Int × SubmissionJob)) :
    Replays ((spooled env entries (.fresh opens)).text (spoolPath env)) (entries.map Prod.snd) ↔
      entries = [] := by
  cases entries with
  | nil => exact iff_of_true .nil rfl
  | cons e entries =>
      refine iff_of_false (fun h => ?_) (List.cons_ne_nil _ _)
      unfold Replays at h
      cases hopens : opens (spoolPath env) with
      | false =>
          rw [spooled_of_not_opens hopens] at h
          cases h
      | true =>
          rw [fileLines_spooled hopens rfl, List.map_cons, List.map_cons, List.forall₂_cons] at h
          exact not_lineReplays e.1 e.2 e.2 h.1

def spooledJob : SubmissionJob := { jobId := str "a1", examId := 7 }

theorem not_spool_replays : ¬ Replays
    ((spooled none [(0, spooledJob)] (.fresh fun _ => true)).text (spoolPath none)) [spooledJob] := by
  unfold Replays
  rw [fileLines_spooled rfl rfl, List.map_singleton, List.forall₂_cons]
  exact fun h => not_lineReplays 0 spooledJob spooledJob h.1

end ExamVan.Queue
