import ExamVan.Lib.Bytes

/-!
# Percent encoding

Bytes that may not stand for themselves are written as `%` and two hexadecimal digits. Decoding reads
an encoded text as itself, whatever follows it.
-/

namespace Percent

open ByteString

def upperDigit (n : UInt8) : UInt8 := if n < 10 then chr '0' + n else chr 'A' + (n - 10)

def digitValue (c : UInt8) : Option UInt8 :=
  if chr '0' ≤ c ∧ c ≤ chr '9' then some (c - chr '0')
  else if chr 'A' ≤ c ∧ c ≤ chr 'F' then some (c - chr 'A' + 10)
  else if chr 'a' ≤ c ∧ c ≤ chr 'f' then some (c - chr 'a' + 10)
  else none

def isUnreserved (c : UInt8) : Bool :=
  (chr 'A' ≤ c && c ≤ chr 'Z') || (chr 'a' ≤ c && c ≤ chr 'z') || (chr '0' ≤ c && c ≤ chr '9') ||
    c = chr '-' || c = chr '_' || c = chr '.' || c = chr '~'

/-- The bytes of a path that stand for themselves: its segments stay apart. -/
def isPathByte (c : UInt8) : Bool := c = chr '/' || isUnreserved c

def encodeByte (keep : UInt8 → Bool) (c : UInt8) : Bytes :=
  if keep c then [c] else [chr '%', upperDigit (c / 16), upperDigit (c % 16)]

def encode (keep : UInt8 → Bool) (s : Bytes) : Bytes := s.flatMap (encodeByte keep)

def decode : Bytes → Bytes
  | [] => []
  | c :: h :: l :: t =>
      if c = chr '%' then
        match digitValue h, digitValue l with
        | some a, some b => (16 * a + b) :: decode t
        | _, _ => c :: decode (h :: l :: t)
      else c :: decode (h :: l :: t)
  | c :: t => c :: decode t

variable {keep : UInt8 → Bool} {c : UInt8} {s : Bytes}

@[simp]
theorem encode_nil : encode keep [] = [] := rfl

theorem encode_cons (c : UInt8) (s : Bytes) : encode keep (c :: s) = encodeByte keep c ++ encode keep s :=
  rfl

theorem encode_append (s t : Bytes) : encode keep (s ++ t) = encode keep s ++ encode keep t :=
  List.flatMap_append

theorem encode_eq_self (h : ∀ c ∈ s, keep c = true) : encode keep s = s := by
  induction s with
  | nil => rfl
  | cons c s ih =>
      rw [List.forall_mem_cons] at h
      rw [encode_cons, encodeByte, if_pos h.1, ih h.2, List.singleton_append]

theorem decode_cons (h : c ≠ chr '%') (t : Bytes) : decode (c :: t) = c :: decode t := by
  rcases t with - | ⟨x, - | ⟨y, t⟩⟩
  · rfl
  · rfl
  · rw [decode, if_neg h]

theorem decode_upperDigit (c : UInt8) (t : Bytes) :
    decode (chr '%' :: upperDigit (c / 16) :: upperDigit (c % 16) :: t) = c :: decode t := by
  have hdigits : ∀ c : UInt8, digitValue (upperDigit (c / 16)) = some (c / 16) ∧
      digitValue (upperDigit (c % 16)) = some (c % 16) ∧ 16 * (c / 16) + c % 16 = c :=
    forall_byte (by decide)
  obtain ⟨hhigh, hlow, hbyte⟩ := hdigits c
  rw [decode, if_pos rfl, hhigh, hlow]
  dsimp only
  rw [hbyte]

/-- Whatever follows, an encoded text is read as itself. -/
theorem decode_append (hkeep : keep (chr '%') = false) (s t : Bytes) :
    decode (encode keep s ++ t) = s ++ decode t := by
  induction s with
  | nil => rfl
  | cons c s ih =>
      rw [encode_cons, encodeByte, List.append_assoc]
      by_cases hplain : keep c = true
      · have hc : c ≠ chr '%' := by
          rintro rfl
          rw [hkeep] at hplain
          cases hplain
        rw [if_pos hplain, List.singleton_append, decode_cons hc, ih, List.cons_append]
      · rw [if_neg hplain, List.cons_append, List.cons_append, List.cons_append, List.nil_append,
          decode_upperDigit, ih, List.cons_append]

theorem decode_encode (hkeep : keep (chr '%') = false) (s : Bytes) : decode (encode keep s) = s := by
  have happend := decode_append hkeep s []
  rwa [List.append_nil, decode, List.append_nil] at happend

theorem encode_injective (hkeep : keep (chr '%') = false) : Function.Injective (encode keep) :=
  Function.LeftInverse.injective (decode_encode hkeep)

/-- An encoded text consists of kept bytes, percent signs and digits. -/
theorem notMem_encode (hreserved : keep c = false) (hplain : isUnreserved c = false)
    (hpercent : c ≠ chr '%') (s : Bytes) : c ∉ encode keep s := by
  have hdigits : ∀ d : UInt8, isUnreserved (upperDigit (d / 16)) = true ∧
      isUnreserved (upperDigit (d % 16)) = true :=
    forall_byte (by decide)
  have hne : ∀ {d : UInt8}, isUnreserved d = true → c ≠ d := by
    rintro d hd rfl
    rw [hplain] at hd
    cases hd
  rw [encode, List.mem_flatMap]
  rintro ⟨d, -, hmem⟩
  unfold encodeByte at hmem
  split_ifs at hmem with hkept
  · rw [List.mem_singleton.mp hmem] at hreserved
    rw [hreserved] at hkept
    cases hkept
  · rcases List.mem_cons.mp hmem with hc | hmem
    · exact hpercent hc
    · rcases List.mem_cons.mp hmem with hc | hmem
      · exact hne (hdigits d).1 hc
      · exact hne (hdigits d).2 (List.mem_singleton.mp hmem)

/-! ### Dot segments -/

/-- The segments of a path without `.`; `..` takes back the segment before it, except the empty one in
front of the path. -/
def resolveSegments : List Bytes → List Bytes → List Bytes
  | out, [] => out.reverse
  | out, segment :: rest =>
      if segment = str "." then resolveSegments (if rest = [] then [] :: out else out) rest
      else if segment = str ".." then
        let out := if out.length ≤ 1 then out else out.tail
        resolveSegments (if rest = [] then [] :: out else out) rest
      else resolveSegments (segment :: out) rest

def removeDots (path : Bytes) : Bytes :=
  [chr '/'].intercalate (resolveSegments [] (path.splitOn (chr '/')))

/-- No segment stands for another directory. -/
def Plain (path : Bytes) : Prop :=
  ∀ segment ∈ path.splitOn (chr '/'), segment ≠ str "." ∧ segment ≠ str ".."

theorem resolveSegments_of_plain {segments : List Bytes}
    (h : ∀ segment ∈ segments, segment ≠ str "." ∧ segment ≠ str "..") (out : List Bytes) :
    resolveSegments out segments = out.reverse ++ segments := by
  induction segments generalizing out with
  | nil => rw [resolveSegments, List.append_nil]
  | cons segment rest ih =>
      rw [List.forall_mem_cons] at h
      rw [resolveSegments, if_neg h.1.1, if_neg h.1.2, ih h.2, List.reverse_cons, List.append_assoc,
        List.singleton_append]

theorem removeDots_of_plain {path : Bytes} (h : Plain path) : removeDots path = path := by
  rw [removeDots, resolveSegments_of_plain h, List.reverse_nil, List.nil_append,
    List.intercalate_splitOn]

theorem encode_intercalate (segments : List Bytes) :
    encode isPathByte ([chr '/'].intercalate segments) =
      [chr '/'].intercalate (segments.map (encode isPathByte)) := by
  induction segments with
  | nil => rfl
  | cons segment rest ih =>
      cases rest with
      | nil => simp
      | cons next rest =>
          have hslash : encode isPathByte [chr '/'] = [chr '/'] := by decide
          rw [List.intercalate_cons_cons, encode_append, encode_append, hslash, ih, List.map_cons (a := segment),
            List.map_cons, List.intercalate_cons_cons]

theorem notMem_of_mem_splitOn {c : UInt8} {s t : Bytes} (h : t ∈ s.splitOn c) : c ∉ t := by
  induction s generalizing t with
  | nil =>
      rw [List.splitOn_nil, List.mem_singleton] at h
      rw [h]
      exact List.not_mem_nil
  | cons b s ih =>
      rw [List.splitOn_cons_eq_if_modifyHead] at h
      by_cases hb : b = c
      · rw [if_pos (beq_iff_eq.mpr hb)] at h
        rcases List.mem_cons.mp h with rfl | h
        · exact List.not_mem_nil
        · exact ih h
      · rw [if_neg (by simpa using hb)] at h
        cases hsplit : s.splitOn c with
        | nil => simp [hsplit] at h
        | cons head rest =>
            rw [hsplit, List.modifyHead_cons] at h
            rw [hsplit] at ih
            rcases List.mem_cons.mp h with rfl | h
            · rw [List.mem_cons, not_or]
              exact ⟨fun heq => hb heq.symm, ih List.mem_cons_self⟩
            · exact ih (List.mem_cons_of_mem head h)

theorem plain_encode {path : Bytes} (h : Plain path) : Plain (encode isPathByte path) := by
  have hslash : ∀ text ∈ (path.splitOn (chr '/')).map (encode isPathByte), chr '/' ∉ text := by
    intro text htext
    obtain ⟨segment, hsegment, rfl⟩ := List.mem_map.mp htext
    rw [encode, List.mem_flatMap]
    rintro ⟨d, hd, hmem⟩
    have hbyte : ∀ d : UInt8, chr '/' ∈ encodeByte isPathByte d → d = chr '/' :=
      forall_byte (by decide)
    exact notMem_of_mem_splitOn hsegment (hbyte d hmem ▸ hd)
  intro segment hsegment
  rw [← @List.intercalate_splitOn _ path _ _ (chr '/'), encode_intercalate,
    List.splitOn_intercalate _ hslash (by simp)] at hsegment
  obtain ⟨plain, hplain, rfl⟩ := List.mem_map.mp hsegment
  have hdots : encode isPathByte (str ".") = str "." ∧ encode isPathByte (str "..") = str ".." := by
    decide
  have hinj : Function.Injective (encode isPathByte) := encode_injective (by decide)
  constructor
  · rw [← hdots.1, hinj.ne_iff]
    exact (h plain hplain).1
  · rw [← hdots.2, hinj.ne_iff]
    exact (h plain hplain).2

end Percent
