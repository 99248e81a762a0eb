import ExamVan.Lib.Wire
import ExamVan.Queue.RoundTrip

/-!
# The submission job in the protobuf build

With `HAS_PROTOBUF` a job may be queued in either of two formats, and nothing in the payload tells
which. `dequeue` tries the protobuf parser first and falls back to JSON.
-/

namespace ExamVan.Queue

open ByteString Wire

/-! ### The message -/

/-- The types of the fields of `message SubmissionJob`. -/
inductive FieldType
  | string
  | int32
  | entries

def fieldType : Nat → Option FieldType
  | 1 | 3 | 4 | 5 | 6 | 8 | 9 => some .string
  | 2 | 7 => some .int32
  | 10 | 11 => some .entries
  | _ => none

def setText (number : Nat) (s : Bytes) (j : SubmissionJob) : SubmissionJob :=
  match number with
  | 1 => { j with jobId := s }
  | 3 => { j with studentName := s }
  | 4 => { j with examNumber := s }
  | 5 => { j with studentClass := s }
  | 6 => { j with macAddress := s }
  | 8 => { j with enqueuedAt := s }
  | 9 => { j with startTime := s }
  | _ => j

def setNumber (number : Nat) (n : Int32) (j : SubmissionJob) : SubmissionJob :=
  match number with
  | 2 => { j with examId := n }
  | 7 => { j with retries := n }
  | _ => j

def putEntry (number : Nat) (e : Bytes × Bytes) (j : SubmissionJob) : SubmissionJob :=
  match number with
  | 10 => { j with answers := j.answers.insert e.1 e.2 }
  | 11 => { j with identityData := j.identityData.insert e.1 e.2 }
  | _ => j

/-! ### Serializing -/

/-- A string that is empty is left out. -/
def textField (number : Nat) (s : Bytes) : Bytes := if s = [] then [] else lenField number s

/-- A number that is 0 is left out. A negative one is extended to 64 bits. -/
def numberField (number : Nat) (n : Int32) : Bytes :=
  if n = 0 then [] else varintField number (n.toInt % 2 ^ 64).toNat

def entryField (number : Nat) (e : Bytes × Bytes) : Bytes :=
  lenField number (lenField 1 e.1 ++ lenField 2 e.2)

/-- The order in which the library writes the entries of a map. -/
structure EntryOrder where
  order : List (Bytes × Bytes) → List (Bytes × Bytes)
  perm : ∀ entries, (order entries).Perm entries

/-- In the order of the keys. -/
def EntryOrder.byKey : EntryOrder := ⟨id, fun _ => .refl _⟩

def entriesField (order : EntryOrder) (number : Nat) (m : StringMap) : Bytes :=
  (order.order m.entries).flatMap (entryField number)

/-- The fields in the order of their numbers. -/
def serialization (order : EntryOrder) (j : SubmissionJob) : Bytes :=
  textField 1 j.jobId ++ numberField 2 j.examId ++ textField 3 j.studentName ++
    textField 4 j.examNumber ++ textField 5 j.studentClass ++ textField 6 j.macAddress ++
    numberField 7 j.retries ++ textField 8 j.enqueuedAt ++ textField 9 j.startTime ++
    entriesField order 10 j.answers ++ entriesField order 11 j.identityData

/-- `SubmissionJob::to_protobuf`. `SerializeToString` leaves its argument empty where it fails. -/
def toProtobuf (order : EntryOrder) (j : SubmissionJob) : Bytes :=
  if (serialization order j).length ≤ maxSize then serialization order j else []

/-! ### Parsing -/

/-- One field of a map entry: 1 is the key and 2 the value. -/
def setEntry (e : Bytes × Bytes) (f : Wire.Field) : Option (Bytes × Bytes) :=
  match f.number, f.payload with
  | 1, .len s => if isValidUtf8 s then some (s, e.2) else none
  | 2, .len s => if isValidUtf8 s then some (e.1, s) else none
  | _, _ => some e

def readEntry (s : Bytes) : Option (Bytes × Bytes) :=
  (readMessage (maxDepth - 1) s).bind fun fields => fields.foldlM setEntry ([], [])

/-- A field that the message does not have, or has with another type, is an unknown one. -/
def setField (j : SubmissionJob) (f : Wire.Field) : Option SubmissionJob :=
  match fieldType f.number, f.payload with
  | some .string, .len s => if isValidUtf8 s then some (setText f.number s j) else none
  | some .int32, .varint n => some (setNumber f.number (Int32.ofNat n) j)
  | some .entries, .len s => (readEntry s).map fun e => putEntry f.number e j
  | _, _ => some j

def parseFromArray (s : Bytes) : Option SubmissionJob :=
  if s.length ≤ maxSize then (readMessage maxDepth s).bind fun fields => fields.foldlM setField {}
  else none

/-- `SubmissionJob::from_protobuf`. The job has the fields of the message, so they are taken over
as they are. -/
def fromProtobuf (s : Bytes) : Option SubmissionJob := parseFromArray s

/-- `SubmissionQueue::dequeue`, with what `BRPOP` gave. -/
def dequeue (reply : Option Bytes) : Option SubmissionJob :=
  reply.bind fun raw => (fromProtobuf raw).or (fromJson raw)

/-! ### The round trip -/

/-- Bytes that turn one message into another. -/
def Writes (text : Bytes) (j j' : SubmissionJob) : Prop :=
  ∃ fields, Run maxDepth text fields ∧ fields.foldlM setField j = some j'

theorem Writes.append {text more : Bytes} {j j' j'' : SubmissionJob} (h : Writes text j j')
    (hmore : Writes more j' j'') : Writes (text ++ more) j j'' := by
  obtain ⟨fields, hrun, hfold⟩ := h
  obtain ⟨fields', hrun', hfold'⟩ := hmore
  refine ⟨fields ++ fields', hrun.append hrun', ?_⟩
  rw [List.foldlM_append, hfold]
  exact hfold'

theorem Writes.nothing (j : SubmissionJob) : Writes [] j j := ⟨[], .nil, rfl⟩

theorem length_le_lenField (number : Nat) (b : Bytes) : b.length ≤ (lenField number b).length := by
  rw [lenField, List.length_append, List.length_append]
  omega

/-- The numbers that the message uses. -/
def IsNumber (number : Nat) : Prop := 0 < number ∧ number < 2 ^ 29

theorem writes_textField {number : Nat} {s : Bytes} {j : SubmissionJob} (hnumber : IsNumber number)
    (htype : fieldType number = some .string) (hutf8 : isValidUtf8 s = true)
    (hlength : (textField number s).length ≤ maxSize) (hempty : s = [] → setText number s j = j) :
    Writes (textField number s) j (setText number s j) := by
  unfold textField at hlength ⊢
  split at hlength
  · next hs =>
      rw [if_pos hs, hempty hs]
      exact .nothing j
  · next hs =>
      rw [if_neg hs]
      have hsize := (length_le_lenField number s).trans hlength
      refine ⟨_, run_lenField hnumber.1 hnumber.2 hsize maxDepth, ?_⟩
      simp [setField, htype, hutf8]

theorem int32_ofNat_extended (n : Int32) : Int32.ofNat (n.toInt % 2 ^ 64).toNat = n := by
  apply Int32.toInt_inj.mp
  have hlow := n.le_toInt
  have hhigh := n.toInt_lt
  rw [Int32.toInt_ofNat', show Int32.size = 2 ^ 32 from rfl, Int.bmod_def]
  omega

theorem writes_numberField {number : Nat} {n : Int32} {j : SubmissionJob}
    (hnumber : IsNumber number) (htype : fieldType number = some .int32)
    (hzero : n = 0 → setNumber number n j = j) :
    Writes (numberField number n) j (setNumber number n j) := by
  unfold numberField
  split
  · next hn =>
      rw [hzero hn]
      exact .nothing j
  · next hn =>
      have hlt : (n.toInt % 2 ^ 64).toNat < 2 ^ 64 := by omega
      refine ⟨_, run_varintField hnumber.1 hnumber.2 hlt maxDepth, ?_⟩
      simp only [List.foldlM_cons, List.foldlM_nil, setField, htype, int32_ofNat_extended]
      rfl

theorem readEntry_entry {e : Bytes × Bytes} (hkey : isValidUtf8 e.1 = true)
    (hvalue : isValidUtf8 e.2 = true)
    (hlength : (lenField 1 e.1 ++ lenField 2 e.2).length ≤ maxSize) :
    readEntry (lenField 1 e.1 ++ lenField 2 e.2) = some e := by
  rw [List.length_append] at hlength
  have hkeySize := length_le_lenField 1 e.1
  have hvalueSize := length_le_lenField 2 e.2
  have hrun : Run (maxDepth - 1) (lenField 1 e.1 ++ lenField 2 e.2) [⟨1, .len e.1⟩, ⟨2, .len e.2⟩] :=
    (run_lenField (by decide) (by decide) (by omega) _).append
      (run_lenField (by decide) (by decide) (by omega) _)
  rw [readEntry, readMessage_eq_some_iff.mpr hrun, Option.bind_some]
  simp [setEntry, hkey, hvalue]

theorem writes_entryField {number : Nat} {e : Bytes × Bytes} (hnumber : IsNumber number)
    (htype : fieldType number = some .entries) (hkey : isValidUtf8 e.1 = true)
    (hvalue : isValidUtf8 e.2 = true) (hlength : (entryField number e).length ≤ maxSize)
    (j : SubmissionJob) : Writes (entryField number e) j (putEntry number e j) := by
  have hsize := (length_le_lenField number (lenField 1 e.1 ++ lenField 2 e.2)).trans hlength
  refine ⟨_, run_lenField hnumber.1 hnumber.2 hsize maxDepth, ?_⟩
  simp only [List.foldlM_cons, List.foldlM_nil, setField, htype, readEntry_entry hkey hvalue hsize]
  rfl

theorem writes_entries (number : Nat) {entries : List (Bytes × Bytes)} (hnumber : IsNumber number)
    (htype : fieldType number = some .entries)
    (hutf8 : ∀ e ∈ entries, isValidUtf8 e.1 = true ∧ isValidUtf8 e.2 = true)
    (hlength : (entries.flatMap (entryField number)).length ≤ maxSize) (j : SubmissionJob) :
    Writes (entries.flatMap (entryField number)) j
      (entries.foldl (fun j e => putEntry number e j) j) := by
  induction entries generalizing j with
  | nil => exact .nothing j
  | cons e entries ih =>
      rw [List.flatMap_cons, List.length_append] at hlength
      obtain ⟨hkey, hvalue⟩ := hutf8 e List.mem_cons_self
      rw [List.flatMap_cons, List.foldl_cons]
      exact (writes_entryField hnumber htype hkey hvalue (by omega) j).append
        (ih (fun e' he' => hutf8 e' (List.mem_cons_of_mem e he')) (by omega) _)

theorem foldl_putEntry_answers (entries : List (Bytes × Bytes)) (j : SubmissionJob) :
    entries.foldl (fun j e => putEntry 10 e j) j =
      { j with answers := j.answers.insertAll entries } := by
  induction entries generalizing j with
  | nil => rfl
  | cons e entries ih => rw [List.foldl_cons, ih]; rfl

theorem foldl_putEntry_identityData (entries : List (Bytes × Bytes)) (j : SubmissionJob) :
    entries.foldl (fun j e => putEntry 11 e j) j =
      { j with identityData := j.identityData.insertAll entries } := by
  induction entries generalizing j with
  | nil => rfl
  | cons e entries ih => rw [List.foldl_cons, ih]; rfl

/-- All strings of a job, those of its maps included. -/
def SubmissionJob.strings (j : SubmissionJob) : List Bytes :=
  [j.jobId, j.studentName, j.examNumber, j.studentClass, j.macAddress, j.enqueuedAt, j.startTime] ++
    (j.answers.entries.flatMap fun e => [e.1, e.2]) ++
    j.identityData.entries.flatMap fun e => [e.1, e.2]

/-- Every string of the job is UTF-8. -/
def SubmissionJob.Utf8 (j : SubmissionJob) : Prop := ∀ s ∈ j.strings, isValidUtf8 s = true

instance (j : SubmissionJob) : Decidable j.Utf8 := inferInstanceAs (Decidable (∀ s ∈ _, _))

theorem SubmissionJob.Utf8.answers {j : SubmissionJob} (h : j.Utf8) {e : Bytes × Bytes}
    (he : e ∈ j.answers.entries) : isValidUtf8 e.1 = true ∧ isValidUtf8 e.2 = true := by
  constructor
  · exact h _ (List.mem_append_left _ (List.mem_append_right _
      (List.mem_flatMap.mpr ⟨e, he, List.mem_cons_self⟩)))
  · exact h _ (List.mem_append_left _ (List.mem_append_right _
      (List.mem_flatMap.mpr ⟨e, he, List.mem_cons_of_mem _ List.mem_cons_self⟩)))

theorem SubmissionJob.Utf8.identityData {j : SubmissionJob} (h : j.Utf8) {e : Bytes × Bytes}
    (he : e ∈ j.identityData.entries) : isValidUtf8 e.1 = true ∧ isValidUtf8 e.2 = true := by
  constructor
  · exact h _ (List.mem_append_right _ (List.mem_flatMap.mpr ⟨e, he, List.mem_cons_self⟩))
  · exact h _ (List.mem_append_right _
      (List.mem_flatMap.mpr ⟨e, he, List.mem_cons_of_mem _ List.mem_cons_self⟩))

section

variable {order : EntryOrder} {j : SubmissionJob}

theorem writes_answers (h : j.Utf8) (hlength : (entriesField order 10 j.answers).length ≤ maxSize)
    {k : SubmissionJob} (hk : k.answers = .empty) :
    Writes (entriesField order 10 j.answers) k { k with answers := j.answers } := by
  have hperm := order.perm j.answers.entries
  have hwrites := writes_entries 10 ⟨by decide, by decide⟩ rfl
    (fun e he => h.answers (hperm.mem_iff.mp he)) hlength k
  rwa [foldl_putEntry_answers, hk, OrderedMap.insertAll_of_perm hperm] at hwrites

theorem writes_identityData (h : j.Utf8)
    (hlength : (entriesField order 11 j.identityData).length ≤ maxSize) {k : SubmissionJob}
    (hk : k.identityData = .empty) :
    Writes (entriesField order 11 j.identityData) k { k with identityData := j.identityData } := by
  have hperm := order.perm j.identityData.entries
  have hwrites := writes_entries 11 ⟨by decide, by decide⟩ rfl
    (fun e he => h.identityData (hperm.mem_iff.mp he)) hlength k
  rwa [foldl_putEntry_identityData, hk, OrderedMap.insertAll_of_perm hperm] at hwrites

/-- The fields fill an empty message one after the other. -/
theorem writes_serialization (h : j.Utf8) (hlength : (serialization order j).length ≤ maxSize) :
    Writes (serialization order j) {} j := by
  have hstring : ∀ s ∈ [j.jobId, j.studentName, j.examNumber, j.studentClass, j.macAddress,
      j.enqueuedAt, j.startTime], isValidUtf8 s = true :=
    fun s hs => h s (List.mem_append_left _ (List.mem_append_left _ hs))
  simp only [List.forall_mem_cons] at hstring
  obtain ⟨h1, h3, h4, h5, h6, h8, h9, -⟩ := hstring
  simp only [serialization, List.length_append] at hlength
  have htext : ∀ (number : Nat) (s : Bytes) (k : SubmissionJob), IsNumber number →
      fieldType number = some .string → isValidUtf8 s = true →
      (textField number s).length ≤ maxSize → setText number [] k = k →
      Writes (textField number s) k (setText number s k) :=
    fun _ _ _ hnumber htype hutf8 hsize hk =>
      writes_textField hnumber htype hutf8 hsize fun hs => hs ▸ hk
  have hnumber : ∀ (number : Nat) (n : Int32) (k : SubmissionJob), IsNumber number →
      fieldType number = some .int32 → setNumber number 0 k = k →
      Writes (numberField number n) k (setNumber number n k) :=
    fun _ _ _ hnumber htype hk => writes_numberField hnumber htype fun hn => hn ▸ hk
  have w1 : Writes _ {} { jobId := j.jobId } :=
    htext 1 _ _ ⟨by decide, by decide⟩ rfl h1 (by omega) rfl
  have w2 : Writes _ {}
      { jobId := j.jobId, examId := j.examId } :=
    w1.append (hnumber 2 _ _ ⟨by decide, by decide⟩ rfl rfl)
  have w3 : Writes _ {}
      { jobId := j.jobId, examId := j.examId, studentName := j.studentName } :=
    w2.append (htext 3 _ _ ⟨by decide, by decide⟩ rfl h3 (by omega) rfl)
  have w4 : Writes _ {}
      { jobId := j.jobId, examId := j.examId, studentName := j.studentName,
        examNumber := j.examNumber } :=
    w3.append (htext 4 _ _ ⟨by decide, by decide⟩ rfl h4 (by omega) rfl)
  have w5 : Writes _ {}
      { jobId := j.jobId, examId := j.examId, studentName := j.studentName,
        examNumber := j.examNumber, studentClass := j.studentClass } :=
    w4.append (htext 5 _ _ ⟨by decide, by decide⟩ rfl h5 (by omega) rfl)
  have w6 : Writes _ {}
      { jobId := j.jobId, examId := j.examId, studentName := j.studentName,
        examNumber := j.examNumber, studentClass := j.studentClass,
        macAddress := j.macAddress } :=
    w5.append (htext 6 _ _ ⟨by decide, by decide⟩ rfl h6 (by omega) rfl)
  have w7 : Writes _ {}
      { jobId := j.jobId, examId := j.examId, studentName := j.studentName,
        examNumber := j.examNumber, studentClass := j.studentClass,
        macAddress := j.macAddress, retries := j.retries } :=
    w6.append (hnumber 7 _ _ ⟨by decide, by decide⟩ rfl rfl)
  have w8 : Writes _ {}
      { jobId := j.jobId, examId := j.examId, studentName := j.studentName,
        examNumber := j.examNumber, studentClass := j.studentClass,
        macAddress := j.macAddress, retries := j.retries, enqueuedAt := j.enqueuedAt } :=
    w7.append (htext 8 _ _ ⟨by decide, by decide⟩ rfl h8 (by omega) rfl)
  have w9 : Writes _ {}
      { jobId := j.jobId, examId := j.examId, studentName := j.studentName,
        examNumber := j.examNumber, studentClass := j.studentClass,
        macAddress := j.macAddress, retries := j.retries, enqueuedAt := j.enqueuedAt,
        startTime := j.startTime } :=
    w8.append (htext 9 _ _ ⟨by decide, by decide⟩ rfl h9 (by omega) rfl)
  exact (w9.append (writes_answers h (by omega) rfl)).append
    (writes_identityData h (by omega) rfl)

theorem parseFromArray_of_writes {text : Bytes} (h : Writes text {} j)
    (hlength : text.length ≤ maxSize) : parseFromArray text = some j := by
  obtain ⟨fields, hrun, hfold⟩ := h
  rw [parseFromArray, if_pos hlength, readMessage_eq_some_iff.mpr hrun, Option.bind_some, hfold]

/-- What fits is read back. Nothing else is, the empty text is a message without a job id. -/
theorem fromProtobuf_toProtobuf_iff (hid : j.jobId ≠ []) (h : j.Utf8) :
    fromProtobuf (toProtobuf order j) = some j ↔ (serialization order j).length ≤ maxSize := by
  unfold toProtobuf
  split
  · next hlength =>
      exact iff_of_true (parseFromArray_of_writes (writes_serialization h hlength) hlength) hlength
  · next hlength =>
      refine iff_of_false (fun hread => hid ?_) hlength
      have hempty : fromProtobuf [] = some {} := rfl
      rw [hempty] at hread
      rw [← Option.some.inj hread]

end

end ExamVan.Queue
