import ExamVan.Api.Approval
import ExamVan.Lib.Utf8
import ExamVan.Presence.Http

/-!
# Texts that are cut

`truncate_bytes` drops the continuation bytes at the end of what it keeps, but neither the first byte
before them nor only those of an incomplete character. So a cut text stays valid exactly if the last
byte before the cut is an ASCII byte.
-/

namespace ExamVan.Api

open ByteString Wire Queue

/-- The longest valid text of at most `n` bytes at the start of `s`. -/
structure IsLongestValid (n : Nat) (s p : Bytes) : Prop where
  starts : p <+: s
  fits : p.length ≤ n
  valid : isValidUtf8 p = true
  longest : ∀ q, q <+: s → q.length ≤ n → isValidUtf8 q = true → q.length ≤ p.length

/-- The text is not cut, or behind an ASCII byte, or away. -/
def EndsWhole (n : Nat) (s : Bytes) : Prop :=
  s.length ≤ n ∨ ∀ c ∈ (s.take n).getLast?, c < 0x80

instance (n : Nat) (s : Bytes) : Decidable (EndsWhole n s) := inferInstanceAs (Decidable (_ ∨ _))

theorem isContinuation_eq (c : UInt8) : isContinuation c = decide (c &&& 0xC0 = 0x80) :=
  forall_byte (p := fun c => isContinuation c = decide (c &&& 0xC0 = 0x80)) (by decide) c

theorem truncateBytes_eq (s : Bytes) (n : Nat) :
    truncateBytes s n = if s.length ≤ n then s else (s.take n).rdropWhile isContinuation := by
  have hp : isContinuation = fun c => decide (c &&& 0xC0 = 0x80) := funext isContinuation_eq
  rw [truncateBytes, hp]

/-- Behind a byte that is not ASCII, what the loop leaves ends in the first byte of a character. -/
theorem not_isValidUtf8_rdropWhile {o t : Bytes} {c : UInt8}
    (h : isValidUtf8 (o ++ c :: t) = true) (hc : ¬ c < 0x80) :
    isValidUtf8 ((o ++ [c]).rdropWhile isContinuation) ≠ true := by
  induction hn : o.length generalizing o c t with
  | zero =>
      obtain rfl := List.length_eq_zero_iff.mp hn
      have hhead : isContinuation c = false := not_isContinuation_of_isValidUtf8 h
      rw [List.rdropWhile_concat_neg _ _ _ (by simp [hhead])]
      intro hvalid
      rcases lt_or_isContinuation_of_isValidUtf8 hvalid with hlow | hcont
      · exact hc hlow
      · exact absurd hcont (by simp [hhead])
  | succ n ih =>
      by_cases hcont : isContinuation c = true
      · obtain ⟨o, d, rfl⟩ := (List.eq_nil_or_concat o).resolve_left (by rintro rfl; cases hn)
        rw [List.rdropWhile_concat_pos _ _ _ hcont]
        rw [List.concat_eq_append, List.append_assoc] at h
        by_cases hd : d < 0x80
        · -- a continuation byte would follow a whole character
          have hbefore : isValidUtf8 (o ++ [d]) = true := isValidUtf8_of_ascii h hd
          have hafter := isValidUtf8_append hbefore (c :: t)
          rw [List.append_assoc, h] at hafter
          rw [not_isContinuation_of_isValidUtf8 hafter.symm] at hcont
          cases hcont
        · rw [List.concat_eq_append]
          exact ih h hd (by simpa using hn)
      · rw [List.rdropWhile_concat_neg _ _ _ hcont]
        intro hvalid
        exact (lt_or_isContinuation_of_isValidUtf8 hvalid).elim hc hcont

section

variable {s : Bytes} {n : Nat}

theorem isLongestValid_truncateBytes (hs : isValidUtf8 s = true) (h : EndsWhole n s) :
    IsLongestValid n s (truncateBytes s n) := by
  rw [truncateBytes_eq]
  split
  next hfits => exact ⟨List.prefix_rfl, hfits, hs, fun q hq _ _ => hq.length_le⟩
  next hlong =>
    have hlast := h.resolve_left hlong
    have hlength : (s.take n).length = n := List.length_take_of_le (by omega)
    have hkeep : (s.take n).rdropWhile isContinuation = s.take n ∧
        isValidUtf8 (s.take n) = true := by
      rcases List.eq_nil_or_concat (s.take n) with hnil | ⟨o, c, ho⟩
      · simp [hnil, isValidUtf8]
      · rw [List.concat_eq_append] at ho
        have hc : c < 0x80 := hlast c (by simp [ho])
        have hnot : isContinuation c = false := (isContinuation_eq_false c).mpr (Or.inl hc)
        have hsplit : o ++ c :: s.drop n = s := by
          rw [← List.singleton_append, ← List.append_assoc, ← ho, List.take_append_drop]
        rw [ho, List.rdropWhile_concat_neg _ _ _ (by simp [hnot])]
        exact ⟨rfl, isValidUtf8_of_ascii (hsplit.symm ▸ hs) hc⟩
    rw [hkeep.1]
    exact ⟨List.take_prefix _ _, hlength.le, hkeep.2, fun q _ hq _ => hlength.symm ▸ hq⟩

theorem endsWhole_of_isValidUtf8 (hs : isValidUtf8 s = true)
    (h : isValidUtf8 (truncateBytes s n) = true) : EndsWhole n s := by
  rw [truncateBytes_eq] at h
  split at h
  next hfits => exact Or.inl hfits
  next hlong =>
    right
    intro c hc
    obtain ⟨o, ho⟩ := List.getLast?_eq_some_iff.mp hc
    have hsplit : o ++ c :: s.drop n = s := by
      rw [← List.singleton_append, ← List.append_assoc, ← ho, List.take_append_drop]
    by_contra hhigh
    rw [ho] at h
    exact not_isValidUtf8_rdropWhile (hsplit.symm ▸ hs) hhigh h

end

/-! ### The texts of the two handlers -/

/-- A handler cuts a text of its request at some length and passes it on. -/
inductive Passed : Bytes → Nat → Bytes → Prop
  | accessName (examId : Int32) (body : Bytes) :
      Passed (Presence.accessField body (str "student_name")) 200
        (Presence.accessReport examId body).studentName
  | accessNumber (examId : Int32) (body : Bytes) :
      Passed (Presence.accessField body (str "exam_number")) 100
        (Presence.accessReport examId body).examNumber
  | accessClass (examId : Int32) (body : Bytes) :
      Passed (Presence.accessField body (str "student_class")) 100
        (Presence.accessReport examId body).studentClass
  | accessDevice (examId : Int32) (body : Bytes) :
      Passed (Presence.accessField body (str "device_info")) 200
        (Presence.accessReport examId body).deviceInfo
  | approvalName {env : ApprovalEnv} {req : Request} {a : ApprovalRequest}
      (h : checkApproval env req = .ok a) :
      Passed (approvalFields req.body).studentName 200 a.studentName
  | approvalNumber {env : ApprovalEnv} {req : Request} {a : ApprovalRequest}
      (h : checkApproval env req = .ok a) :
      Passed (approvalFields req.body).examNumber 100 a.examNumber
  | approvalClass {env : ApprovalEnv} {req : Request} {a : ApprovalRequest}
      (h : checkApproval env req = .ok a) :
      Passed (approvalFields req.body).studentClass 100 a.studentClass

theorem texts_of_checkApproval {env : ApprovalEnv} {req : Request} {a : ApprovalRequest}
    (h : checkApproval env req = .ok a) :
    a.studentName = truncateBytes (approvalFields req.body).studentName 200 ∧
      a.examNumber = truncateBytes (approvalFields req.body).examNumber 100 ∧
      a.studentClass = truncateBytes (approvalFields req.body).studentClass 100 := by
  unfold checkApproval at h
  dsimp only at h
  split at h
  next => cases h
  next =>
  split at h
  next => cases h
  next =>
  split at h
  next => cases h
  next =>
  split at h
  next => cases h
  next =>
  split at h
  next => cases h
  next =>
    cases h
    exact ⟨rfl, rfl, rfl⟩

theorem Passed.eq {s out : Bytes} {n : Nat} (h : Passed s n out) : out = truncateBytes s n := by
  cases h with
  | accessName | accessNumber | accessClass | accessDevice => rfl
  | approvalName h => exact (texts_of_checkApproval h).1
  | approvalNumber h => exact (texts_of_checkApproval h).2.1
  | approvalClass h => exact (texts_of_checkApproval h).2.2

/-- What is kept of a valid text is its longest valid start, and is passed on as valid text, exactly
if the last byte before the cut is an ASCII byte. -/
theorem isLongestValid_truncateBytes_iff {s : Bytes} (hs : isValidUtf8 s = true) (n : Nat) :
    (IsLongestValid n s (truncateBytes s n) ↔ EndsWhole n s) ∧
      ∀ out, Passed s n out → (isValidUtf8 out = true ↔ EndsWhole n s) := by
  have hvalid : isValidUtf8 (truncateBytes s n) = true ↔ EndsWhole n s :=
    ⟨endsWhole_of_isValidUtf8 hs, fun h => (isLongestValid_truncateBytes hs h).valid⟩
  refine ⟨⟨fun h => hvalid.mp h.valid, isLongestValid_truncateBytes hs⟩, ?_⟩
  intro out hout
  rw [hout.eq]
  exact hvalid

/-- A name of 101 letters of two bytes each. -/
def longName : Bytes := (List.replicate 101 [0xC3, 0xA9]).flatten

theorem isLongestValid_truncateBytes_iff_longName :
    (IsLongestValid 202 longName (truncateBytes longName 202) ↔ EndsWhole 202 longName) ∧
      ∀ out, Passed longName 202 out → (isValidUtf8 out = true ↔ EndsWhole 202 longName) :=
  isLongestValid_truncateBytes_iff (by decide +kernel) 202

/-- The cut right behind the hundredth letter takes half of it away. -/
theorem not_isLongestValid_truncateBytes :
    isValidUtf8 longName = true ∧ ¬ IsLongestValid 200 longName (truncateBytes longName 200) := by
  have hvalid : isValidUtf8 longName = true := by decide +kernel
  refine ⟨hvalid, fun h => ?_⟩
  have hcut : ¬ EndsWhole 200 longName := by decide +kernel
  exact hcut (endsWhole_of_isValidUtf8 hvalid h.valid)

end ExamVan.Api
