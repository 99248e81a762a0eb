import ExamVan.Api.BodyFields
import ExamVan.Api.Submit

/-!
# Required identity fields

`required_identity_keys` does not look at objects. It cuts the text into pieces, each from a quoted
`key` to the first closing brace behind the string after it, and a key is required if its piece has
`"required":true` in it, letter by letter. `submit_exam` asks for the keys that come out of this.
-/

namespace ExamVan.Api

open ByteString JsonText Middleware Models Http
open Queue (scanString needle jsonEscape)

/-! ### What the fields say -/

/-- The key of an object that is required. -/
def wantedKey : Value → Option Bytes
  | .object _ members =>
      if (ownValue members (str "required")).any isTrue then
        match ownValue members (str "key") with
        | some (.string s) => some (decode s)
        | _ => none
      else none
  | _ => none

def wantedKeys (fields : Items) : List Bytes := fields.values.filterMap wantedKey

/-- All that `submit_exam` checks before the identity. -/
structure Admitted (env : Surroundings) (req : Request) (examId : Int32) (exam : Exam) : Prop where
  named : fieldOr req.params (str "exam_id") [] ≠ []
  id : stoi (fieldOr req.params (str "exam_id") []) = some examId
  found : env.getById examId = some exam
  started : examStarted exam = true
  allowed : env.rateLimitAllowed (str "ratelimit:submit:") examId (submitMac req)
    (fieldOr req.headers (str "X-Forwarded-For") []) 10 = true
  token : submitToken req ≠ []
  inTime : env.scheduleEnded exam = true → env.approvedAfterEnd examId (submitMac req) = true
  known : ExamToken.matchesToken exam (submitToken req) = true ∨
    env.approvedWithoutToken examId (submitMac req) = true

/-- The response to a missing identity. -/
def MissingIdentity (r : Response) : Prop :=
  ∃ key, r = Http.failure 400 (str "Identitas wajib belum lengkap: " ++ jsonEscape key)

def BlankIn (job : Queue.SubmissionJob) (key : Bytes) : Prop :=
  ExamToken.trim (identityValue job key) = []

/-- The keys are those of the required objects, and a submission is refused exactly if one of them is
blank in it. -/
structure Enforced (text : Bytes) (fields : Items) : Prop where
  keys : requiredIdentityKeys text = wantedKeys fields
  refuses : ∀ env req examId exam w, Admitted env req examId exam →
    exam.identityFields = some text →
      (MissingIdentity (submitExam env req w).1 ↔
        ∃ key ∈ wantedKeys fields, BlankIn (draftJob env req examId) key)

/-! ### Pieces of a text -/

/-- From the first quoted `key` to the closing brace behind the string after the next colon, with that
string as it is spelled, and the text behind the brace. -/
def FirstPiece (s k piece rest : Bytes) : Prop :=
  ∃ b c d t, findSub (needle (str "key")) s = some (piece ++ chr '\x7d' :: rest) ∧
    piece = needle (str "key") ++ (b ++ chr ':' :: (c ++ chr '"' :: (k ++ chr '"' :: d))) ∧
      chr ':' ∉ b ∧ chr '"' ∉ c ∧ Dropped k t ∧ chr '\x7d' ∉ d

/-- The pieces of a text, each with its string. -/
inductive Pieces : Bytes → List (Bytes × Bytes) → Prop
  | nil {s : Bytes} (h : ∀ k piece rest, ¬ FirstPiece s k piece rest) : Pieces s []
  | cons {s k piece rest : Bytes} {pieces : List (Bytes × Bytes)} (h : FirstPiece s k piece rest) :
      Pieces rest pieces → Pieces s ((k, piece) :: pieces)

/-- The test of `required_identity_keys`. -/
def saysRequired (piece : Bytes) : Bool := (findSub (str "\"required\":true") piece).isSome

/-- The pieces that say so belong to the required objects, one to each, in order. -/
def PiecesStand (text : Bytes) (fields : Items) : Prop :=
  ∃ pieces, Pieces text pieces ∧
    List.Forall₂ (fun (p : Bytes × Bytes) key => p.1 = key)
      (pieces.filter fun p => saysRequired p.2) (wantedKeys fields)

section

variable {s t k piece rest : Bytes}

/-! ### One piece -/

theorem scanString_of_dropped {y : Bytes} (h : Dropped k t) :
    scanString (k ++ chr '"' :: y) = some (k, y) := by
  induction h with
  | nil => exact Queue.scanString_quote y
  | plain hback hquote _ ih =>
      rw [List.cons_append, Queue.scanString_cons hback hquote, ih]
      rfl
  | escape _ ih =>
      rw [List.cons_append, List.cons_append, Queue.scanString_backslash, ih]
      rfl

theorem dropped_of_scanString {r : Bytes × Bytes} (h : scanString s = some r) :
    ∃ t, Dropped r.1 t ∧ s = r.1 ++ chr '"' :: r.2 := by
  refine Exists.imp (fun t ht => ⟨ht, append_of_scanString h⟩) ?_
  fun_induction scanString s generalizing r with
  | case1 => cases h
  | case2 => cases h
  | case3 d rest ih =>
      obtain ⟨r', hr', rfl⟩ := Option.map_eq_some_iff.mp h
      obtain ⟨t, ht⟩ := ih hr'
      exact ⟨_, ht.escape⟩
  | case4 =>
      cases h
      exact ⟨[], .nil⟩
  | case5 c rest hback hquote ih =>
      obtain ⟨r', hr', rfl⟩ := Option.map_eq_some_iff.mp h
      obtain ⟨t, ht⟩ := ih hr'
      exact ⟨_, ht.plain hback hquote⟩

/-- The test makes spaces of the blanks, and looks for a text without any. -/
theorem findSub_spaces {n : Bytes} (hn : ∀ c ∈ n, Queue.isBlank c = false) (s : Bytes) :
    findSub n (s.map fun c => if Queue.isBlank c then chr ' ' else c) = none ↔ findSub n s = none := by
  have hprefix : ∀ s : Bytes,
      n <+: s.map (fun c => if Queue.isBlank c then chr ' ' else c) ↔ n <+: s := by
    induction n with
    | nil => exact fun s => iff_of_true List.nil_prefix List.nil_prefix
    | cons a n ih =>
        obtain ⟨ha, hrest⟩ := List.forall_mem_cons.mp hn
        intro s
        cases s with
        | nil => simp
        | cons c s =>
            have hsame : a = (if Queue.isBlank c then chr ' ' else c) ↔ a = c := by
              split_ifs with hc
              · refine iff_of_false ?_ ?_
                · rintro rfl
                  exact absurd ha (by decide)
                · rintro rfl
                  rw [hc] at ha
                  cases ha
              · rfl
            rw [List.map_cons, List.cons_prefix_cons, List.cons_prefix_cons, hsame, ih hrest]
  induction s with
  | nil => rfl
  | cons c s ih =>
      have hhead := hprefix (c :: s)
      rw [List.map_cons] at hhead ⊢
      by_cases h : n <+: c :: s
      · rw [findSub, if_pos (hhead.mpr h), findSub, if_pos h]
        exact iff_of_false (Option.some_ne_none _) (Option.some_ne_none _)
      · rw [findSub, if_neg fun hno => h (hhead.mp hno), findSub, if_neg h]
        exact ih

/-- A round of the loop takes the first piece. -/
theorem requiredKeys_of_firstPiece {fuel : Nat} (h : FirstPiece s k piece rest) :
    requiredKeys (fuel + 1) s =
      if saysRequired piece then k :: requiredKeys fuel rest else requiredKeys fuel rest := by
  obtain ⟨b, c, d, t, hfind, hpiece, hb, hc, hk, hd⟩ := h
  have hquote : ∀ x, findByte (· = chr '"') (c ++ chr '"' :: x) = some (chr '"' :: x) := by
    intro x
    exact findByte_eq_append hc x
  have hbrace : findByte (· = chr '\x7d') (d ++ chr '\x7d' :: rest) = some (chr '\x7d' :: rest) :=
    findByte_eq_append hd rest
  have htext : piece ++ chr '\x7d' :: rest = needle (str "key") ++ (b ++ chr ':' :: (c ++ chr '"' ::
      (k ++ chr '"' :: (d ++ chr '\x7d' :: rest)))) := by
    rw [hpiece]
    simp
  have hdrop : (piece ++ chr '\x7d' :: rest).drop 5 = b ++ chr ':' :: (c ++ chr '"' ::
      (k ++ chr '"' :: (d ++ chr '\x7d' :: rest))) := by
    rw [htext]
    exact List.drop_left' rfl
  have htake : (piece ++ chr '\x7d' :: rest).take
      ((piece ++ chr '\x7d' :: rest).length - (chr '\x7d' :: rest).length) = piece := by
    rw [List.length_append, Nat.add_sub_cancel]
    exact List.take_left' rfl
  have hplain : ∀ c ∈ str "\"required\":true", Queue.isBlank c = false := by decide
  have hname : str "\"key\"" = needle (str "key") := rfl
  rw [requiredKeys, hname, hfind]
  simp only [hdrop, findByte_eq_append hb, List.tail_cons, hquote, scanString_of_dropped hk, hbrace, htake,
    findSub_spaces hplain]
  unfold saysRequired
  cases findSub (str "\"required\":true") piece <;> rfl

theorem requiredKeys_of_none {fuel : Nat} (h : ∀ k piece rest, ¬ FirstPiece s k piece rest) :
    requiredKeys fuel s = [] := by
  cases fuel with
  | zero => rfl
  | succ fuel =>
      have hname : str "\"key\"" = needle (str "key") := rfl
      unfold requiredKeys
      rw [hname]
      cases hfind : findSub (needle (str "key")) s with
      | none => rfl
      | some x =>
          obtain ⟨-, -, x', rfl⟩ := exists_of_findSub hfind
          have hdrop : (needle (str "key") ++ x').drop 5 = x' := List.drop_left' rfl
          simp only [hdrop]
          cases hcolon : findByte (· = chr ':') x' with
          | none => rfl
          | some u =>
              obtain ⟨b, c₁, u', rfl, rfl, hc₁, hb⟩ := exists_of_findByte hcolon
              simp only [List.tail_cons]
              cases hquote : findByte (· = chr '"') u' with
              | none => rfl
              | some v =>
                  obtain ⟨c, c₂, v', rfl, rfl, hc₂, hc⟩ := exists_of_findByte hquote
                  simp only [List.tail_cons]
                  cases hscan : scanString v' with
                  | none => rfl
                  | some r =>
                      simp only
                      cases hbrace : findByte (· = chr '\x7d') r.2 with
                      | none => rfl
                      | some w =>
                          obtain ⟨d, c₃, rest, hr, rfl, hc₃, hd⟩ := exists_of_findByte hbrace
                          obtain ⟨t, hk, rfl⟩ := dropped_of_scanString hscan
                          obtain rfl : c₁ = chr ':' := by simpa using hc₁
                          obtain rfl : c₂ = chr '"' := by simpa using hc₂
                          obtain rfl : c₃ = chr '\x7d' := by simpa using hc₃
                          refine absurd ?_ (h r.1 (needle (str "key") ++ (b ++ chr ':' ::
                            (c ++ chr '"' :: (r.1 ++ chr '"' :: d)))) rest)
                          refine ⟨b, c, d, t, ?_, rfl, fun hmem => ?_, fun hmem => ?_, hk, fun hmem => ?_⟩
                          · rw [hfind, hr]
                            simp
                          · simpa using hb _ hmem
                          · simpa using hc _ hmem
                          · simpa using hd _ hmem

theorem length_of_firstPiece (h : FirstPiece s k piece rest) : rest.length < s.length := by
  obtain ⟨b, c, d, t, hfind, -, -⟩ := h
  have hle := length_le_of_findSub hfind
  rw [List.length_append, List.length_cons] at hle
  omega

/-! ### All pieces -/

theorem exists_pieces (s : Bytes) : ∃ pieces, Pieces s pieces := by
  induction hn : s.length using Nat.strong_induction_on generalizing s with
  | _ n ih =>
      by_cases h : ∃ k piece rest, FirstPiece s k piece rest
      · obtain ⟨k, piece, rest, hfirst⟩ := h
        obtain ⟨pieces, hpieces⟩ := ih _ (hn ▸ length_of_firstPiece hfirst) rest rfl
        exact ⟨_, hpieces.cons hfirst⟩
      · push Not at h
        exact ⟨[], .nil h⟩

/-- The loop keeps the strings of the pieces that say so. -/
theorem requiredKeys_of_pieces {pieces : List (Bytes × Bytes)} (h : Pieces s pieces) {fuel : Nat}
    (hfuel : s.length ≤ fuel) :
    requiredKeys fuel s = (pieces.filter fun p => saysRequired p.2).map Prod.fst := by
  induction h generalizing fuel with
  | nil h => exact requiredKeys_of_none h
  | @cons s k piece rest pieces h hpieces ih =>
      have hlength := length_of_firstPiece h
      cases fuel with
      | zero => omega
      | succ fuel =>
          rw [requiredKeys_of_firstPiece h, ih (by omega), List.filter_cons]
          split_ifs <;> rfl

theorem keys_iff (text : Bytes) (fields : Items) :
    requiredIdentityKeys text = wantedKeys fields ↔ PiecesStand text fields := by
  have hforall : ∀ (l : List (Bytes × Bytes)) (keys : List Bytes),
      List.Forall₂ (fun p key => p.1 = key) l keys ↔ l.map Prod.fst = keys := by
    intro l keys
    have hmap : List.Forall₂ (· = ·) (l.map Prod.fst) keys ↔
        List.Forall₂ (fun p key => p.1 = key) l keys := List.forall₂_map_left_iff
    rw [← hmap, List.forall₂_eq_eq_eq]
  unfold requiredIdentityKeys PiecesStand
  constructor
  · intro h
    obtain ⟨pieces, hpieces⟩ := exists_pieces text
    refine ⟨pieces, hpieces, (hforall _ _).mpr ?_⟩
    rw [← requiredKeys_of_pieces hpieces le_rfl, h]
  · rintro ⟨pieces, hpieces, hall⟩
    rw [requiredKeys_of_pieces hpieces le_rfl]
    exact (hforall _ _).mp hall

/-! ### Submissions -/

theorem checkSubmit_of_admitted {env : Surroundings} {req : Request} {examId : Int32} {exam : Exam}
    (h : Admitted env req examId exam) :
    checkSubmit env req =
      match missingIdentity exam (draftJob env req examId) with
      | some key => .error (Http.failure 400 (str "Identitas wajib belum lengkap: " ++ jsonEscape key))
      | none => .ok (draftJob env req examId, exam) := by
  have hended : ¬ (env.scheduleEnded exam && !env.approvedAfterEnd examId (submitMac req)) = true := by
    simpa using h.inTime
  have hknown : ¬ (!ExamToken.matchesToken exam (submitToken req) &&
      !env.approvedWithoutToken examId (submitMac req)) = true := by
    rcases h.known with hknown | hknown <;> simp [hknown]
  unfold checkSubmit
  cases hid : fieldOr req.params (str "exam_id") [] with
  | nil => exact absurd hid h.named
  | cons c idText =>
      have hstoi : stoi (c :: idText) = some examId := hid ▸ h.id
      simp only [hstoi, h.found]
      rw [if_neg (by simp [h.started]), if_neg (by simp [h.allowed]), if_neg h.token, if_neg hended]
      exact if_neg hknown

theorem missing_iff {env : Surroundings} {req : Request} {examId : Int32} {exam : Exam} {text : Bytes}
    (h : Admitted env req examId exam) (hfields : exam.identityFields = some text) (w : World) :
    MissingIdentity (submitExam env req w).1 ↔
      ∃ key ∈ requiredIdentityKeys text, BlankIn (draftJob env req examId) key := by
  have hmissing : missingIdentity exam (draftJob env req examId) =
      (requiredIdentityKeys text).find? fun key =>
        ExamToken.trim (identityValue (draftJob env req examId) key) = [] := by
    unfold missingIdentity
    rw [hfields, Option.getD_some]
    cases text <;> rfl
  have hcheck := checkSubmit_of_admitted h
  rw [hmissing] at hcheck
  cases hfind : (requiredIdentityKeys text).find? fun key =>
      ExamToken.trim (identityValue (draftJob env req examId) key) = [] with
  | some key =>
      rw [hfind] at hcheck
      have hblank := List.find?_some hfind
      rw [decide_eq_true_eq] at hblank
      exact iff_of_true ⟨key, by rw [submitExam, hcheck]⟩
        ⟨key, List.mem_of_find?_eq_some hfind, hblank⟩
  | none =>
      rw [hfind] at hcheck
      refine iff_of_false ?_ ?_
      · rintro ⟨key, hresponse⟩
        have hstatus := congrArg Response.status hresponse
        rw [submitExam, hcheck] at hstatus
        revert hstatus
        dsimp only
        split
        · exact nofun
        · split_ifs <;> exact nofun
      · rintro ⟨key, hmem, hblank⟩
        have hkept := List.find?_eq_none.mp hfind key hmem
        rw [decide_eq_true_eq] at hkept
        exact hkept hblank

end

/-- A required field with a blank behind the colon. -/
def spacedField : Items :=
  .cons .empty (.object .empty
    (.cons .empty (Queue.escapedPieces (str "key")) .empty .empty
      (.string (Queue.escapedPieces (str "nis"))) .empty
      (.cons .empty (Queue.escapedPieces (str "required")) .empty ⟨str " ", by decide⟩
        (.literal .true) .empty .nil))) .empty .nil

end ExamVan.Api
