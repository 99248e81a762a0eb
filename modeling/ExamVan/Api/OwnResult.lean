import Mathlib.Algebra.Order.BigOperators.Group.List
import ExamVan.Api.ResultPoll

/-!
# A student's own result

The worker takes the fingerprint of the identity as it was submitted, the poll that of the identity
after it has been cleaned, cut, escaped and read again. The two are the same exactly if every name
and value of the identity comes through that unchanged.
-/

namespace ExamVan.Api

open ByteString Queue Models Db Http

/-! ### The identity of a poll -/

/-- One round of the loop reads one member and leaves its escapes in place. -/
theorem stringPairs_member (fuel : Nat) (first : Bool) (k v t : Bytes) (out : StringMap) :
    stringPairs (fuel + 1) (separator first ++ (quoted k ++ chr ':' :: (quoted v ++ t))) out =
      stringPairs fuel t (out.insert (jsonEscape k) (jsonEscape v)) := by
  have hcolon : (chr ':' :: (quoted v ++ t)).dropWhile (fun c => isBlank c || c = chr ':') =
      chr '"' :: (jsonEscape v ++ chr '"' :: t) := by
    rw [List.dropWhile_cons_of_pos (by decide), quoted_append]
    exact List.dropWhile_cons_of_neg (by decide)
  rw [quoted_append, stringPairs, dropWhile_separator]
  simp only [show chr '"' ≠ chr '\x7d' by decide, if_false, ne_eq, not_true_eq_false,
    scanString_jsonEscape, hcolon]

theorem stringPairs_mapMembers {entries : List (Bytes × Bytes)} {fuel : Nat} (first : Bool)
    (hfuel : entries.length < fuel) (out : StringMap) :
    stringPairs fuel (mapMembers first entries ++ [chr '\x7d']) out =
      out.insertAll (entries.map fun kv => (jsonEscape kv.1, jsonEscape kv.2)) := by
  induction entries generalizing first fuel out with
  | nil =>
      obtain ⟨fuel, rfl⟩ := Nat.exists_eq_succ_of_ne_zero (Nat.ne_of_gt hfuel)
      have hclose : [chr '\x7d'].dropWhile (fun c => isBlank c || c = chr ',') = [chr '\x7d'] := by
        decide
      rw [stringPairs, mapMembers, List.nil_append, hclose]
      simp
  | cons kv rest ih =>
      obtain ⟨fuel, rfl⟩ := Nat.exists_eq_succ_of_ne_zero (Nat.ne_of_gt (Nat.zero_lt_of_lt hfuel))
      rw [mapMembers_cons]
      simp only [List.append_assoc, List.cons_append]
      rw [stringPairs_member, ih false (by simpa using hfuel), List.map_cons,
        OrderedMap.insertAll_cons]

theorem parseStringMap_mapToJson (m : StringMap) :
    parseStringMap (mapToJson m) =
      OrderedMap.empty.insertAll (m.entries.map fun kv => (jsonEscape kv.1, jsonEscape kv.2)) := by
  have hlength := length_le_mapMembers true m.entries
  rw [mapToJson, parseStringMap, if_pos (by decide)]
  exact stringPairs_mapMembers true (by simp; omega) _

/-- A value as the poll writes it: without needless blanks, cut to 200 bytes and escaped. -/
def rewritten (v : Bytes) : Bytes := jsonEscape ((Admin.sanitizeStudentInput v).take 200)

/-- The identity that a poll's fingerprint is taken of. -/
def respelled (m : StringMap) : StringMap :=
  OrderedMap.empty.insertAll (m.entries.map fun kv => (jsonEscape kv.1, rewritten kv.2))

theorem parseStringMap_sanitizeIdentityMapJson {raw : Bytes} (h : raw ≠ []) :
    parseStringMap (sanitizeIdentityMapJson raw) = respelled (parseStringMap raw) := by
  have hsorted : ((OrderedMap.empty : StringMap).entries ++ (parseStringMap raw).entries.map
      fun kv => (kv.1, (Admin.sanitizeStudentInput kv.2).take 200)).Pairwise
      fun a b => a.1 < b.1 :=
    List.pairwise_map.mpr (parseStringMap raw).sorted
  rw [sanitizeIdentityMapJson, if_neg h, parseStringMap_mapToJson, OrderedMap.entries_insertAll hsorted,
    OrderedMap.empty, List.nil_append, List.map_map]
  rfl

theorem sanitizeIdentityMapJson_eq_nil_iff {raw : Bytes} :
    sanitizeIdentityMapJson raw = [] ↔ raw = [] := by
  unfold sanitizeIdentityMapJson
  split
  next h => exact iff_of_true rfl h
  next h => exact iff_of_false (List.cons_ne_nil _ _) h

/-- A name and a value that a poll does not change. -/
def Kept (kv : Bytes × Bytes) : Prop := Unescaped kv.1 ∧ rewritten kv.2 = kv.2

instance (kv : Bytes × Bytes) : Decidable (Kept kv) := inferInstanceAs (Decidable (_ ∧ _))

theorem find?_respelled (m : StringMap) (key : Bytes) :
    (respelled m).find? (jsonEscape key) = (m.find? key).map rewritten :=
  OrderedMap.find?_insertAll_map jsonEscape_injective rewritten m key

/-- A name that is escaped would be there once more with its escapes escaped, and so on. -/
theorem unescaped_of_closed {m : StringMap}
    (hclosed : ∀ key, (m.find? key).isSome = true → (m.find? (jsonEscape key)).isSome = true)
    {key : Bytes} (hkey : (m.find? key).isSome = true) : Unescaped key := by
  by_contra hescaped
  have hgrows : ∀ n : Nat, ∃ key, (m.find? key).isSome = true ∧ ¬ Unescaped key ∧ n ≤ key.length := by
    intro n
    induction n with
    | zero => exact ⟨key, hkey, hescaped, Nat.zero_le _⟩
    | succ n ih =>
        obtain ⟨key, hfound, hescaped, hlength⟩ := ih
        have hlonger : key.length < (jsonEscape key).length :=
          not_le.mp fun hle => hescaped (unescaped_of_length_le hle)
        refine ⟨jsonEscape key, hclosed key hfound, fun hplain => ?_, by omega⟩
        have hsame := jsonEscape_injective (jsonEscape_of_unescaped hplain)
        rw [hsame] at hlonger
        exact lt_irrefl _ hlonger
  obtain ⟨long, hfound, -, hlength⟩ := hgrows ((m.entries.map fun kv => kv.1.length).sum + 1)
  obtain ⟨v, hv⟩ := Option.isSome_iff_exists.mp hfound
  have hmem := OrderedMap.find?_eq_some_iff.mp hv
  have hle : long.length ≤ (m.entries.map fun kv => kv.1.length).sum :=
    List.le_sum_of_mem (List.mem_map_of_mem hmem)
  omega

/-- A poll keeps an identity exactly if it keeps every name and value of it. -/
theorem respelled_eq_self_iff (m : StringMap) : respelled m = m ↔ ∀ kv ∈ m.entries, Kept kv := by
  constructor
  · intro h kv hkv
    have hfind : ∀ key, m.find? (jsonEscape key) = (m.find? key).map rewritten := fun key => by
      rw [← find?_respelled, h]
    have hvalue : m.find? kv.1 = some kv.2 := OrderedMap.find?_eq_some_iff.mpr hkv
    have hname : Unescaped kv.1 := by
      refine unescaped_of_closed (m := m) (fun key hkey => ?_) (by rw [hvalue]; rfl)
      rw [hfind, Option.isSome_map, hkey]
    have hsame := hfind kv.1
    rw [jsonEscape_of_unescaped hname, hvalue] at hsame
    exact ⟨hname, (Option.some.inj hsame).symm⟩
  · intro h
    have hmap : (m.entries.map fun kv => (jsonEscape kv.1, rewritten kv.2)) = m.entries := by
      calc (m.entries.map fun kv => (jsonEscape kv.1, rewritten kv.2))
          = m.entries.map id := List.map_congr_left fun kv hkv => by
            rw [jsonEscape_of_unescaped (h kv hkv).1, (h kv hkv).2]
            rfl
        _ = m.entries := List.map_id _
    rw [respelled, hmap, OrderedMap.insertAll_entries]

/-! ### A submission and its poll -/

/-- What the worker may hold of an accepted job: it is decoded from the text in the queue, and goes
back there with another counter. -/
inductive Carried (job : SubmissionJob) : SubmissionJob → Prop
  | accepted : Carried job job
  | decoded {w : SubmissionJob} : Carried job w → Carried job (reread w)
  | retried {w : SubmissionJob} (retries : Int32) :
      Carried job w → Carried job { w with retries := retries }

theorem Carried.ids {job w : SubmissionJob} (h : Carried job w) :
    w.jobId = job.jobId ∧ w.examId = job.examId := by
  induction h with
  | accepted => exact ⟨rfl, rfl⟩
  | decoded _ ih => exact ih
  | retried _ _ ih => exact ih

/-- A poll for the job from the same device, with the same identity and with a token of the exam. -/
structure PollFor (job : SubmissionJob) (env : PollEnv) (req : Request) : Prop where
  exam : stoi (fieldOr req.params (str "exam_id") []) = some job.examId
  jobId : queryParam req (str "job_id") = job.jobId
  device : pollMac req = job.macAddress
  identity : parseStringMap (queryParam req (str "identity_data")) = job.identityData
  token : ∃ e, env.getById job.examId = some e ∧ pollToken req ≠ [] ∧
    ExamToken.matchesToken e (pollToken req) = true

/-- The poll's own identity is the one that the worker took the fingerprint of. -/
inductive SameSpelling (m : StringMap) : StringMap → Prop
  | kept : (∀ kv ∈ m.entries, Kept kv) → SameSpelling m m
  | misread {n : StringMap} : m ≠ n → respelled m = n → SameSpelling m n

/-- Two identities with one fingerprint. -/
def Collide (hash : Bytes → UInt64) (m n : StringMap) : Prop :=
  m ≠ n ∧ identityFingerprint hash m = identityFingerprint hash n

/-- A poll, with a valid token, for the score that the worker stored for an accepted job. -/
structure OwnPoll (hash : Bytes → UInt64) (job w : SubmissionJob) (env : PollEnv) (req : Request)
    (score : Option Bytes) : Prop extends PollFor job env req where
  accepted : ∃ surroundings submission exam random, random ≠ [] ∧
    surroundings.jobId = generateJobId random ∧
    checkSubmit surroundings submission = .ok (job, exam)
  carried : Carried job w
  numeral : ∀ n ∈ score, IsNumeral n
  stored : ∃ now, env.result job.jobId = (successResult hash w score now).toJson

/-- The limiter lets the poll through. -/
def PollAllowed (env : PollEnv) (req : Request) (examId : Int32) : Prop :=
  env.rateLimitAllowed (str "ratelimit:result:") examId (pollMac req)
    (fieldOr req.headers (str "X-Forwarded-For") []) 60 = true

/-- What the worker stored is taken to be from the device and the identity of the poll. -/
structure Recognized (hash : Bytes → UInt64) (job w : SubmissionJob) (req : Request) : Prop where
  device : loosen w.macAddress = [] ∨ sanitizeMacLikeGo (loosen w.macAddress) = job.macAddress
  identity : queryParam req (str "identity_data") ≠ [] →
    ¬ Hits (str "identity_hash") w.macAddress ∧
      (SameSpelling job.identityData w.identityData ∨
        Collide hash (respelled job.identityData) w.identityData)

theorem sameSpelling_iff {m n : StringMap} : SameSpelling m n ↔ respelled m = n := by
  constructor
  · rintro (hkept | ⟨-, hsame⟩)
    · exact (respelled_eq_self_iff m).mpr hkept
    · exact hsame
  · intro hsame
    by_cases hmn : m = n
    · subst hmn
      exact .kept ((respelled_eq_self_iff m).mp hsame)
    · exact .misread hmn hsame

theorem fingerprint_eq_iff {hash : Bytes → UInt64} {m n : StringMap} :
    identityFingerprint hash (respelled m) = identityFingerprint hash n ↔
      SameSpelling m n ∨ Collide hash (respelled m) n := by
  rw [sameSpelling_iff]
  constructor
  · intro h
    by_cases hsame : respelled m = n
    · exact Or.inl hsame
    · exact Or.inr ⟨hsame, h⟩
  · rintro (rfl | ⟨-, h⟩)
    · rfl
    · exact h

section

variable {hash : Bytes → UInt64} {job w : SubmissionJob} {env : PollEnv} {req : Request}
  {score : Option Bytes} {now : Bytes}

theorem otherDevice_eq_false_iff {raw jobId mac : Bytes} {examId : Int32} :
    otherDevice raw jobId mac examId = false ↔
      jsonStringField raw (str "job_id") = jobId ∧
        (0 < stoiOrZero (jsonRawValue raw (str "exam_id")) →
          stoiOrZero (jsonRawValue raw (str "exam_id")) = examId) ∧
        (jsonStringField raw (str "mac_address") = [] ∨
          sanitizeMacLikeGo (jsonStringField raw (str "mac_address")) = mac) := by
  simp only [otherDevice, Bool.or_eq_false_iff, Bool.and_eq_false_iff, decide_eq_false_iff_not,
    not_not, and_assoc, imp_iff_not_or]

theorem otherIdentity_eq_false_iff {raw identity : Bytes} :
    otherIdentity hash raw identity = false ↔
      jsonStringField raw (str "identity_hash") = [] ∨ identity = [] ∨
        identityFingerprint hash (parseStringMap identity) =
          jsonStringField raw (str "identity_hash") := by
  simp only [otherIdentity, Bool.and_eq_false_iff, decide_eq_false_iff_not, not_not, or_assoc]

theorem otherDevice_successResult (hid : Hexadecimal w.jobId) (mac : Bytes) :
    otherDevice (successResult hash w score now).toJson w.jobId mac w.examId = false ↔
      loosen w.macAddress = [] ∨ sanitizeMacLikeGo (loosen w.macAddress) = mac := by
  have hid' : Hexadecimal (successResult hash w score now).jobId := hid
  rw [otherDevice_eq_false_iff, read_jobId hid', read_macAddress hid', read_examId hid']
  exact (and_iff_right rfl).trans (and_iff_right fun _ => rfl)

theorem fingerprint_ne_nil (m : StringMap) : identityFingerprint hash m ≠ [] :=
  List.cons_ne_nil _ _

/-- The text of a map is not taken for a fingerprint. -/
theorem fingerprint_ne_loosen (m n : StringMap) :
    identityFingerprint hash m ≠ loosen (mapToJson n) := by
  intro h
  have hbrace : chr '\x7b' ∈ loosen (mapToJson n) :=
    List.mem_flatMap.mpr ⟨chr '\x7b', List.mem_cons_self, by decide⟩
  obtain ⟨i, hi, heq⟩ := hexadecimal_identityFingerprint hash m _ (h ▸ hbrace)
  exact (hexDigit_spec i hi).2.2 heq.symm

theorem loosen_mapToJson_ne_nil (m : StringMap) : loosen (mapToJson m) ≠ [] :=
  List.cons_ne_nil _ _

theorem otherIdentity_successResult (hid : Hexadecimal w.jobId) (raw : Bytes) :
    otherIdentity hash (successResult hash w score now).toJson (sanitizeIdentityMapJson raw) =
      false ↔ (raw ≠ [] → ¬ Hits (str "identity_hash") w.macAddress ∧
        identityFingerprint hash (respelled (parseStringMap raw)) =
          identityFingerprint hash w.identityData) := by
  have hread : jsonStringField (successResult hash w score now).toJson (str "identity_hash") =
      if Hits (str "identity_hash") w.macAddress then loosen (mapToJson w.identityData)
      else identityFingerprint hash w.identityData :=
    read_identityHash hid rfl (hexadecimal_identityFingerprint hash w.identityData)
  rw [otherIdentity_eq_false_iff, hread, sanitizeIdentityMapJson_eq_nil_iff]
  by_cases hraw : raw = []
  · exact iff_of_true (Or.inr (Or.inl hraw)) (absurd hraw)
  · rw [or_iff_right hraw, parseStringMap_sanitizeIdentityMapJson hraw, imp_iff_right hraw]
    by_cases hhit : Hits (str "identity_hash") w.macAddress
    · rw [if_pos hhit, or_iff_right (loosen_mapToJson_ne_nil _)]
      exact iff_of_false (fingerprint_ne_loosen _ _) fun h => h.1 hhit
    · rw [if_neg hhit, or_iff_right (fingerprint_ne_nil _)]
      exact (and_iff_right hhit).symm

/-- A stored success is given away exactly to a poll that is taken to be its own. -/
theorem readResult_eq_done_iff (hid : Hexadecimal w.jobId) (hscore : ∀ n ∈ score, IsNumeral n)
    (hidentity : parseStringMap (queryParam req (str "identity_data")) = job.identityData) :
    readResult hash (successResult hash w score now).toJson w.jobId job.macAddress
        (pollIdentity req) w.examId = doneResponse (scoreText score) ↔
      Recognized hash job w req := by
  let raw := (successResult hash w score now).toJson
  have hdevice : otherDevice raw w.jobId job.macAddress w.examId = false ↔ _ :=
    otherDevice_successResult hid job.macAddress
  have hsame : otherIdentity hash raw (pollIdentity req) = false ↔ _ :=
    otherIdentity_successResult hid (queryParam req (str "identity_data"))
  rw [hidentity, fingerprint_eq_iff] at hsame
  have hrefused : ∀ error, failure 403 error ≠ doneResponse (scoreText score) := fun error h => by
    cases congrArg Response.status h
  have hread : storedSuccess raw = true := storedSuccess_toJson rfl
  have hfound : (if storedScore raw = [] then str "null" else storedScore raw) = scoreText score :=
    storedScore_toJson hscore
  change readResult hash raw w.jobId job.macAddress (pollIdentity req) w.examId = _ ↔ _
  unfold readResult
  by_cases hother : otherDevice raw w.jobId job.macAddress w.examId = false
  · rw [hother, if_neg Bool.false_ne_true]
    by_cases hothers : otherIdentity hash raw (pollIdentity req) = false
    · rw [hothers, if_neg Bool.false_ne_true, hread, if_pos rfl, hfound]
      exact iff_of_true rfl ⟨hdevice.mp hother, hsame.mp hothers⟩
    · rw [Bool.not_eq_false] at hothers
      rw [hothers, if_pos rfl]
      refine iff_of_false (hrefused _) fun h => ?_
      rw [hsame.mpr h.identity] at hothers
      cases hothers
  · rw [Bool.not_eq_false] at hother
    rw [hother, if_pos rfl]
    refine iff_of_false (hrefused _) fun h => ?_
    rw [hdevice.mpr h.device] at hother
    cases hother

/-- Behind the gate, a poll with a valid token meets the limiter and then the stored result. -/
theorem examResult_of_pollFor (h : PollFor job env req) :
    examResult hash env req =
      if env.rateLimitAllowed (str "ratelimit:result:") job.examId (pollMac req)
          (fieldOr req.headers (str "X-Forwarded-For") []) 60 = true then
        pollResult hash env req job.examId
      else failure 429 (str "Terlalu banyak request. Silakan coba lagi nanti.") := by
  obtain ⟨e, hget, htoken, hmatches⟩ := h.token
  have hexam := h.exam
  unfold examResult
  cases hid : fieldOr req.params (str "exam_id") [] with
  | nil =>
      have hnone : stoi [] = none := by decide
      rw [hid, hnone] at hexam
      cases hexam
  | cons c t =>
      rw [hid] at hexam
      have hopen : (decide (pollToken req ≠ []) && ExamToken.matchesToken e (pollToken req)) =
          true := by simp [htoken, hmatches]
      simp only [hexam, hget, hopen, Bool.not_true, Bool.false_and, Bool.false_eq_true, if_false]
      cases env.rateLimitAllowed (str "ratelimit:result:") job.examId (pollMac req)
        (fieldOr req.headers (str "X-Forwarded-For") []) 60 <;> rfl

theorem generateJobId_ne_nil {random : List UInt8} (h : random ≠ []) : generateJobId random ≠ [] := by
  obtain ⟨b, random, rfl⟩ := List.exists_cons_of_ne_nil h
  exact List.cons_ne_nil _ _

/-- A student gets the stored score exactly if the limiter allows the poll, the stored device address
is not another one's, and the identity comes through the poll's cleaning as the worker read it. -/
theorem examResult_eq_done_iff (h : OwnPoll hash job w env req score) :
    examResult hash env req = doneResponse (scoreText score) ↔
      PollAllowed env req job.examId ∧ Recognized hash job w req := by
  obtain ⟨now, hstored⟩ := h.stored
  obtain ⟨surroundings, submission, exam, random, hrandom, hdrawn, haccepted⟩ := h.accepted
  have hjob : job.jobId = generateJobId random :=
    (jobId_of_checkSubmit surroundings submission haccepted).trans hdrawn
  obtain ⟨hwid, hwexam⟩ := h.carried.ids
  have hid : Hexadecimal w.jobId := hwid ▸ hjob ▸ hexadecimal_generateJobId random
  have hasked : queryParam req (str "job_id") ≠ [] := by
    rw [h.jobId, hjob]
    exact generateJobId_ne_nil hrandom
  have hpoll : pollResult hash env req job.examId =
      readResult hash (successResult hash w score now).toJson w.jobId job.macAddress
        (pollIdentity req) w.examId := by
    have hraw : (successResult hash w score now).toJson ≠ [] := List.cons_ne_nil _ _
    simp only [pollResult, if_neg hasked]
    rw [h.jobId, hstored, if_neg hraw, h.device, hwid, hwexam]
  rw [examResult_of_pollFor h.toPollFor, PollAllowed]
  split
  next hallowed =>
    rw [hpoll, and_iff_right hallowed]
    exact readResult_eq_done_iff hid h.numeral h.identity
  next hlimited =>
    refine iff_of_false (fun hdone => ?_) fun hboth => hlimited hboth.1
    cases congrArg Response.status hdone

/-- A hash of some kind. -/
def foldHash (s : Bytes) : UInt64 := s.foldl (fun h c => h * 31 + c.toUInt64) 7

/-- A submission with an identity. -/
def identityRequest (identity : Bytes) : Request :=
  { plainRequest with
    body := str "\x7b\"student_name\":\"Ani\",\"mac_address\":\"AA:BB\",\"identity_data\":" ++
      identity ++ [chr '\x7d'] }

/-- The poll for it. -/
def resultRequest (identity : Bytes) : Request :=
  { headers := OrderedMap.empty.insertAll
      [(str "X-Exam-Token", str "ABCDEFGH"), (str "X-Device-Id", str "AA:BB")]
    params := OrderedMap.empty.insert (str "exam_id") (str "7")
    query := str "job_id=0f&identity_data=" ++ identity }

/-- The job that the submission makes. -/
def identityJob (identity : Bytes) : SubmissionJob :=
  draftJob downSurroundings (identityRequest identity) 7

/-- What Redis holds after the worker has persisted it with a score of 87.5. -/
def resultEnv (identity : Bytes) : PollEnv :=
  { getById := downSurroundings.getById
    result := fun jobId =>
      if jobId = str "0f" then
        (successResult foldHash (reread (identityJob identity)) (some (str "87.5")) []).toJson
      else [] }

theorem ownPoll_resultEnv {identity : Bytes}
    (haccepted : checkSubmit downSurroundings (identityRequest identity) =
      .ok (identityJob identity, openExam))
    (hjobId : queryParam (resultRequest identity) (str "job_id") = str "0f")
    (hdevice : pollMac (resultRequest identity) = (identityJob identity).macAddress)
    (hidentity : parseStringMap (queryParam (resultRequest identity) (str "identity_data")) =
      (identityJob identity).identityData)
    (hexam : (identityJob identity).examId = 7) :
    OwnPoll foldHash (identityJob identity) (reread (identityJob identity)) (resultEnv identity)
      (resultRequest identity) (some (str "87.5")) := by
  have hdrawn : (identityJob identity).jobId = str "0f" :=
    jobId_of_checkSubmit downSurroundings (identityRequest identity) haccepted
  have hget : (resultEnv identity).getById 7 = some openExam := rfl
  have htoken : pollToken (resultRequest identity) = str "ABCDEFGH" := by
    have hheader : (OrderedMap.empty.insertAll [(str "X-Exam-Token", str "ABCDEFGH"),
      (str "X-Device-Id", str "AA:BB")]).find? (str "X-Exam-Token") = some (str "ABCDEFGH") := by
      decide
    simp only [pollToken, headerOr, resultRequest, hheader, Option.getD_some]
  refine ⟨⟨?_, hjobId.trans hdrawn.symm, hdevice, hidentity, openExam, hexam ▸ hget, ?_, ?_⟩,
    ⟨downSurroundings, identityRequest identity, openExam, [0x0f], List.cons_ne_nil _ _, by decide,
      haccepted⟩, .decoded .accepted, ?_, [], ?_⟩
  · rw [hexam]
    exact (by decide : stoi (fieldOr (OrderedMap.empty.insert (str "exam_id") (str "7"))
      (str "exam_id") []) = some 7)
  · rw [htoken]
    decide
  · rw [htoken]
    decide +kernel
  · rintro n ⟨⟩
    exact ⟨by decide, by decide⟩
  · rw [hdrawn]
    simp only [resultEnv, if_true]

def plainIdentity : Bytes := str "\x7b\"kota\":\"Bandung\"\x7d"

theorem examResult_eq_done_iff_plain :
    examResult foldHash (resultEnv plainIdentity) (resultRequest plainIdentity) =
        doneResponse (scoreText (some (str "87.5"))) ↔
      PollAllowed (resultEnv plainIdentity) (resultRequest plainIdentity)
          (identityJob plainIdentity).examId ∧
        Recognized foldHash (identityJob plainIdentity) (reread (identityJob plainIdentity))
          (resultRequest plainIdentity) :=
  examResult_eq_done_iff (ownPoll_resultEnv (by decide +kernel) (by decide +kernel)
    (by decide +kernel) (by decide +kernel) (by decide +kernel))

/-- A student who types two spaces into a field of the identity. -/
def spacedIdentity : Bytes := str "\x7b\"kota\":\"Bandung  Barat\"\x7d"

theorem not_examResult_eq_done :
    ¬ ∀ hash job w env req score, OwnPoll hash job w env req score →
      PollAllowed env req job.examId →
      examResult hash env req = doneResponse (scoreText score) := by
  intro h
  have hown := @ownPoll_resultEnv spacedIdentity (by decide +kernel) (by decide +kernel)
    (by decide +kernel) (by decide +kernel) (by decide +kernel)
  have hrefused : examResult foldHash (resultEnv spacedIdentity) (resultRequest spacedIdentity) =
      failure 403 (str "Hasil tidak cocok dengan identitas") := by decide +kernel
  have hdone := (h _ _ _ _ _ _ hown rfl).symm.trans hrefused
  cases congrArg Response.status hdone

example : (examResult foldHash (resultEnv plainIdentity) (resultRequest plainIdentity)).status = 200 := by
  decide +kernel

end

end ExamVan.Api
