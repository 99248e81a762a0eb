import ExamVan.Lib.Wire

/-!
# The characters of a UTF-8 string

A valid string is taken apart at its first character, and from that at any ASCII byte.
-/

namespace Wire

open ByteString

theorem isContinuation_of_isSecondOfThree {a b : UInt8} (h : isSecondOfThree a b = true) :
    isContinuation b = true := by
  unfold isSecondOfThree at h
  unfold isContinuation at h ⊢
  split_ifs at h
  · rw [Bool.and_eq_true, decide_eq_true_eq, decide_eq_true_eq] at h ⊢
    exact ⟨le_trans (by decide) h.1, h.2⟩
  · rw [Bool.and_eq_true, decide_eq_true_eq, decide_eq_true_eq] at h ⊢
    exact ⟨h.1, h.2.trans (by decide)⟩
  · exact h

theorem isContinuation_of_isSecondOfFour {a b : UInt8} (h : isSecondOfFour a b = true) :
    isContinuation b = true := by
  unfold isSecondOfFour at h
  unfold isContinuation at h ⊢
  split_ifs at h
  · rw [Bool.and_eq_true, decide_eq_true_eq, decide_eq_true_eq] at h ⊢
    exact ⟨le_trans (by decide) h.1, h.2⟩
  · rw [Bool.and_eq_true, decide_eq_true_eq, decide_eq_true_eq] at h ⊢
    exact ⟨h.1, h.2.trans (by decide)⟩
  · exact h

theorem isContinuation_eq_false (a : UInt8) :
    isContinuation a = false ↔ a < 0x80 ∨ 0xC0 ≤ a :=
  forall_byte (p := fun a => isContinuation a = false ↔ a < 0x80 ∨ 0xC0 ≤ a) (by decide) a

/-- A string that begins with the character `a :: tail`. -/
structure FirstChar (a : UInt8) (tail rest : Bytes) : Prop where
  head : isContinuation a = false
  continues : ∀ c ∈ tail, isContinuation c = true
  ascii : tail = [] ↔ a < 0x80
  valid : isValidUtf8 rest = true
  any : ∀ t, isValidUtf8 (a :: (tail ++ t)) = isValidUtf8 t

theorem exists_firstChar {a : UInt8} {s : Bytes} (h : isValidUtf8 (a :: s) = true) :
    ∃ tail rest, s = tail ++ rest ∧ FirstChar a tail rest := by
  have hhead : ∀ c : UInt8, 0xC0 ≤ c → isContinuation c = false ∧ ¬ c < 0x80 := fun c hc =>
    ⟨(isContinuation_eq_false c).mpr (Or.inr hc), fun hlow => absurd (hc.trans_lt hlow) (by decide)⟩
  rw [isValidUtf8.eq_def] at h
  dsimp only at h
  split at h
  next hlow =>
    exact ⟨[], s, rfl, (isContinuation_eq_false a).mpr (Or.inl hlow), List.forall_mem_nil _,
      by simp [hlow], h,
      fun t => by rw [List.nil_append, isValidUtf8.eq_def]; simp [hlow]⟩
  next hhigh =>
  cases s with
  | nil => cases h
  | cons b t =>
  dsimp only at h
  split at h
  next htwo =>
    rw [Bool.and_eq_true] at h
    have ha : 0xC0 ≤ a := by
      rw [Bool.and_eq_true, decide_eq_true_eq] at htwo
      exact le_trans (by decide) htwo.1
    refine ⟨[b], t, rfl, (hhead a ha).1, by simpa using h.1, by simpa using (hhead a ha).2, h.2, ?_⟩
    intro u
    rw [isValidUtf8.eq_def]
    simp [hhigh, htwo, h.1]
  next htwo =>
  cases t with
  | nil => cases h
  | cons c u =>
  dsimp only at h
  split at h
  next hthree =>
    rw [Bool.and_eq_true, Bool.and_eq_true] at h
    have ha : 0xC0 ≤ a := by
      rw [Bool.and_eq_true, decide_eq_true_eq] at hthree
      exact le_trans (by decide) hthree.1
    refine ⟨[b, c], u, rfl, (hhead a ha).1, ?_, by simpa using (hhead a ha).2, h.2, ?_⟩
    · simpa using ⟨isContinuation_of_isSecondOfThree h.1.1, h.1.2⟩
    · intro v
      rw [isValidUtf8.eq_def]
      simp [hhigh, htwo, hthree, h.1]
  next hthree =>
  cases u with
  | nil => cases h
  | cons d v =>
    dsimp only at h
    simp only [Bool.and_eq_true] at h
    obtain ⟨⟨⟨⟨⟨hfour, hfour'⟩, hb⟩, hc⟩, hd⟩, hv⟩ := h
    have ha : 0xC0 ≤ a := le_trans (by decide) (of_decide_eq_true hfour)
    refine ⟨[b, c, d], v, rfl, (hhead a ha).1, ?_, by simpa using (hhead a ha).2, hv, ?_⟩
    · simpa using ⟨isContinuation_of_isSecondOfFour hb, hc, hd⟩
    · intro w
      simp [isValidUtf8, hhigh, htwo, hthree, hfour, hfour', hb, hc, hd]

/-- A valid string does not change what may follow it. -/
theorem isValidUtf8_append {s : Bytes} (h : isValidUtf8 s = true) (t : Bytes) :
    isValidUtf8 (s ++ t) = isValidUtf8 t := by
  induction hn : s.length using Nat.strong_induction_on generalizing s with
  | _ n ih =>
  cases s with
  | nil => rfl
  | cons a s =>
      obtain ⟨tail, rest, rfl, hchar⟩ := exists_firstChar h
      have hrest := ih rest.length (by rw [← hn, List.length_cons, List.length_append]; omega) hchar.valid rfl
      rw [List.cons_append, List.append_assoc, hchar.any, hrest]

theorem mem_or_of_append_cons_eq {s t tail rest : Bytes} {c : UInt8}
    (h : s ++ c :: t = tail ++ rest) : c ∈ tail ∨ ∃ w, s = tail ++ w ∧ rest = w ++ c :: t := by
  rcases List.append_eq_append_iff.mp h with ⟨w, rfl, hw⟩ | ⟨w, rfl, hw⟩
  · cases w with
    | nil => exact Or.inr ⟨[], by simp, hw.symm⟩
    | cons d w => exact Or.inl (by simp [(List.cons.inj hw).1])
  · exact Or.inr ⟨w, rfl, hw⟩

/-- No character contains an ASCII byte but as itself. -/
theorem isValidUtf8_of_ascii {s t : Bytes} {c : UInt8} (h : isValidUtf8 (s ++ c :: t) = true)
    (hc : c < 0x80) : isValidUtf8 (s ++ [c]) = true := by
  induction hn : s.length using Nat.strong_induction_on generalizing s with
  | _ n ih =>
  cases s with
  | nil => simp [isValidUtf8, hc]
  | cons a s =>
      obtain ⟨tail, rest, hs, hchar⟩ := exists_firstChar h
      rcases mem_or_of_append_cons_eq hs with hmem | ⟨w, rfl, hw⟩
      · have hinside := hchar.continues c hmem
        rw [(isContinuation_eq_false c).mpr (Or.inl hc)] at hinside
        cases hinside
      · have hvalid := hchar.valid
        rw [hw] at hvalid
        have hrest := ih w.length (by rw [← hn, List.length_cons, List.length_append]; omega) hvalid rfl
        rw [List.cons_append, List.append_assoc, hchar.any, hrest]

/-- A valid string does not end in the first byte of a longer character. -/
theorem lt_or_isContinuation_of_isValidUtf8 {s : Bytes} {c : UInt8}
    (h : isValidUtf8 (s ++ [c]) = true) : c < 0x80 ∨ isContinuation c = true := by
  induction hn : s.length using Nat.strong_induction_on generalizing s with
  | _ n ih =>
  cases s with
  | nil =>
      obtain ⟨tail, rest, hs, hchar⟩ := exists_firstChar h
      exact Or.inl (hchar.ascii.mp (List.append_eq_nil_iff.mp hs.symm).1)
  | cons a s =>
      obtain ⟨tail, rest, hs, hchar⟩ := exists_firstChar h
      rcases mem_or_of_append_cons_eq hs with hmem | ⟨w, rfl, hw⟩
      · exact Or.inr (hchar.continues c hmem)
      · have hvalid := hchar.valid
        rw [hw] at hvalid
        exact ih w.length (by rw [← hn, List.length_cons, List.length_append]; omega) hvalid rfl

/-- A continuation byte is not first, and not behind an ASCII byte. -/
theorem not_isContinuation_of_isValidUtf8 {a : UInt8} {s : Bytes}
    (h : isValidUtf8 (a :: s) = true) : isContinuation a = false := by
  obtain ⟨tail, rest, -, hchar⟩ := exists_firstChar h
  exact hchar.head

end Wire
