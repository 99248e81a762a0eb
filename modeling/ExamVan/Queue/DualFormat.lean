import ExamVan.Queue.Protobuf

/-!
# JSON payloads in the protobuf build

The brace that opens a JSON text is the tag of a group with number 15, and the parser skips groups.
The tag that closes the group is a bar. So a JSON payload is a message if a walk over it, from field
to field, meets a bar, and the walk goes on from there to the very end of the text. Where the walk
goes is up to the strings of the job, and no text without a bar is a message.
-/

namespace ExamVan.Queue

open ByteString Wire

/-! ### Messages -/

/-- The text of a map entry: its key and its value are UTF-8. -/
def IsEntry (s : Bytes) : Prop :=
  ∃ fields, Run (maxDepth - 1) s fields ∧ ∀ f ∈ fields, f.number = 1 ∨ f.number = 2 →
    ∀ b, f.payload = .len b → isValidUtf8 b = true

/-- A field that the message takes, or does not know. -/
def IsTaken (f : Wire.Field) : Prop :=
  match fieldType f.number, f.payload with
  | some .string, .len s => isValidUtf8 s = true
  | some .entries, .len s => IsEntry s
  | _, _ => True

theorem isSome_setEntry_iff (e : Bytes × Bytes) (f : Wire.Field) :
    (setEntry e f).isSome = true ↔
      (f.number = 1 ∨ f.number = 2 → ∀ b, f.payload = .len b → isValidUtf8 b = true) := by
  obtain ⟨number, payload⟩ := f
  unfold setEntry
  dsimp only
  split
  · simp
  · simp
  · next hkey hvalue =>
      refine iff_of_true rfl fun hnumber b hb => ?_
      subst hb
      rcases hnumber with rfl | rfl
      · exact absurd rfl (hkey b rfl)
      · exact absurd rfl (hvalue b rfl)

/-- A fold that fails or not whatever it has come to so far. -/
theorem isSome_foldlM_iff {α β : Type*} {step : β → α → Option β} {p : α → Prop}
    (h : ∀ b a, (step b a).isSome = true ↔ p a) (b : β) (l : List α) :
    (l.foldlM step b).isSome = true ↔ ∀ a ∈ l, p a := by
  induction l generalizing b with
  | nil => simp
  | cons a l ih =>
      rw [List.foldlM_cons, List.forall_mem_cons, ← h b a]
      cases hstep : step b a with
      | none => simp
      | some b' => simpa using ih b'

theorem isSome_readMessage_bind_iff {β : Type*} {step : β → Wire.Field → Option β}
    {p : Wire.Field → Prop} (h : ∀ b f, (step b f).isSome = true ↔ p f) (depth : Nat) (b : β)
    (s : Bytes) : ((readMessage depth s).bind fun fields => fields.foldlM step b).isSome = true ↔
      ∃ fields, Run depth s fields ∧ ∀ f ∈ fields, p f := by
  constructor
  · intro hsome
    obtain ⟨b', hb'⟩ := Option.isSome_iff_exists.mp hsome
    obtain ⟨fields, hread, hfold⟩ := Option.bind_eq_some_iff.mp hb'
    refine ⟨fields, readMessage_eq_some_iff.mp hread, (isSome_foldlM_iff h b fields).mp ?_⟩
    rw [hfold, Option.isSome_some]
  · rintro ⟨fields, hrun, hall⟩
    rw [readMessage_eq_some_iff.mpr hrun, Option.bind_some]
    exact (isSome_foldlM_iff h b fields).mpr hall

theorem isSome_readEntry_iff (s : Bytes) : (readEntry s).isSome = true ↔ IsEntry s :=
  isSome_readMessage_bind_iff isSome_setEntry_iff _ _ _

theorem isSome_setField_iff (j : SubmissionJob) (f : Wire.Field) :
    (setField j f).isSome = true ↔ IsTaken f := by
  obtain ⟨number, payload⟩ := f
  unfold setField IsTaken
  dsimp only
  cases fieldType number with
  | none => simp
  | some type =>
      cases type <;> cases payload
      case string.len s => by_cases h : isValidUtf8 s = true <;> simp [h]
      case entries.len s => exact Option.isSome_map.symm ▸ isSome_readEntry_iff s
      all_goals simp

theorem isSome_parseFromArray_iff (s : Bytes) : (parseFromArray s).isSome = true ↔
    s.length ≤ maxSize ∧ ∃ fields, Run maxDepth s fields ∧ ∀ f ∈ fields, IsTaken f := by
  unfold parseFromArray
  split
  · next hlength =>
      rw [isSome_readMessage_bind_iff isSome_setField_iff, and_iff_right hlength]
  · next hlength => simp [hlength]

/-! ### The bytes of a JSON payload -/

/-- Bytes that are no bar and below the continuation bytes of UTF-8. -/
def IsFrame (c : UInt8) : Prop := c < 0x7C ∨ c = 0x7D

instance (c : UInt8) : Decidable (IsFrame c) := inferInstanceAs (Decidable (_ ∨ _))

/-- Every byte of the text is a frame byte or comes from one of the strings. -/
def MadeOf (strings : List Bytes) (text : Bytes) : Prop :=
  ∀ c ∈ text, IsFrame c ∨ ∃ s ∈ strings, c ∈ s

namespace MadeOf

variable {strings : List Bytes} {s t : Bytes} {c : UInt8}

theorem frame (h : ∀ c ∈ s, IsFrame c) : MadeOf strings s := fun c hc => .inl (h c hc)

theorem append (hs : MadeOf strings s) (ht : MadeOf strings t) : MadeOf strings (s ++ t) :=
  fun c hc => (List.mem_append.mp hc).elim (hs c) (ht c)

theorem cons (hc : IsFrame c) (hs : MadeOf strings s) : MadeOf strings (c :: s) :=
  List.forall_mem_cons.mpr ⟨.inl hc, hs⟩

theorem escape (hs : s ∈ strings) : MadeOf strings (jsonEscape s) := by
  have hbyte : ∀ b : UInt8, ∀ c ∈ escapeByte b, IsFrame c ∨ c = b :=
    forall_byte (p := fun b => ∀ c ∈ escapeByte b, IsFrame c ∨ c = b) (by decide)
  intro c hc
  obtain ⟨b, hb, hcb⟩ := List.mem_flatMap.mp hc
  rcases hbyte b c hcb with hframe | rfl
  · exact .inl hframe
  · exact .inr ⟨s, hs, hb⟩

theorem quoted (hs : s ∈ strings) : MadeOf strings (quoted s) :=
  .cons (by decide) ((escape hs).append (.cons (by decide) (.frame (List.forall_mem_nil _))))

theorem intText (n : Int) : MadeOf strings (intText n) := by
  have hdigit : ∀ c : UInt8, isDigit c = true → IsFrame c :=
    forall_byte (p := fun c => isDigit c = true → IsFrame c) (by decide)
  refine .frame fun c hc => ?_
  rcases mem_intText hc with rfl | h
  · decide
  · exact hdigit c h

theorem mapMembers {entries : List (Bytes × Bytes)}
    (h : ∀ e ∈ entries, e.1 ∈ strings ∧ e.2 ∈ strings) (first : Bool) :
    MadeOf strings (mapMembers first entries) := by
  induction entries generalizing first with
  | nil => exact .frame (List.forall_mem_nil _)
  | cons e entries ih =>
      obtain ⟨hkey, hvalue⟩ := h e List.mem_cons_self
      have hcomma : MadeOf strings (if first then [] else [chr ',']) := by
        cases first <;> exact .frame (by decide)
      have hpair := (quoted hkey).append (.cons (by decide : IsFrame (chr ':')) (quoted hvalue))
      rw [Queue.mapMembers]
      simpa only [List.append_assoc, List.cons_append] using hcomma.append
        (hpair.append (ih (fun e' he' => h e' (List.mem_cons_of_mem e he')) false))

theorem mapToJson {m : StringMap} (h : ∀ e ∈ m.entries, e.1 ∈ strings ∧ e.2 ∈ strings) :
    MadeOf strings (mapToJson m) :=
  .cons (by decide) ((mapMembers h true).append (.cons (by decide) (.frame (List.forall_mem_nil _))))

theorem member {name value : Bytes} (hname : ∀ c ∈ needle name, IsFrame c)
    (hvalue : MadeOf strings value) : MadeOf strings (member name value) :=
  (frame hname).append (.cons (by decide) hvalue)

end MadeOf

theorem madeOf_toJson (j : SubmissionJob) : MadeOf j.strings (toJson j) := by
  have hanswers : ∀ e ∈ j.answers.entries, e.1 ∈ j.strings ∧ e.2 ∈ j.strings := by
    intro e he
    simp only [SubmissionJob.strings, List.mem_append, List.mem_flatMap, List.mem_pair]
    exact ⟨.inl (.inr ⟨e, he, .inl rfl⟩), .inl (.inr ⟨e, he, .inr rfl⟩)⟩
  have hidentity : ∀ e ∈ j.identityData.entries, e.1 ∈ j.strings ∧ e.2 ∈ j.strings := by
    intro e he
    simp only [SubmissionJob.strings, List.mem_append, List.mem_flatMap, List.mem_pair]
    exact ⟨.inr ⟨e, he, .inl rfl⟩, .inr ⟨e, he, .inr rfl⟩⟩
  have htext : ∀ s ∈ [j.jobId, j.studentName, j.examNumber, j.studentClass, j.macAddress,
      j.enqueuedAt, j.startTime], MadeOf j.strings (quoted s) :=
    fun s hs => .quoted (List.mem_append_left _ (List.mem_append_left _ hs))
  simp only [List.forall_mem_cons] at htext
  obtain ⟨hid, hname, hexam, hclass, hmac, henqueued, hstart, -⟩ := htext
  have hcomma : IsFrame (chr ',') := by decide
  refine .cons (by decide) ((MadeOf.member (by decide) hid).append (.cons hcomma ?_))
  refine (MadeOf.member (by decide) (.intText _)).append (.cons hcomma ?_)
  refine (MadeOf.member (by decide) hname).append (.cons hcomma ?_)
  refine (MadeOf.member (by decide) hexam).append (.cons hcomma ?_)
  refine (MadeOf.member (by decide) hclass).append (.cons hcomma ?_)
  refine (MadeOf.member (by decide) hmac).append (.cons hcomma ?_)
  refine (MadeOf.member (by decide) hstart).append (.cons hcomma ?_)
  refine (MadeOf.member (by decide) (.intText _)).append (.cons hcomma ?_)
  refine (MadeOf.member (by decide) henqueued).append (.cons hcomma ?_)
  refine (MadeOf.member (by decide) (.mapToJson hanswers)).append (.cons hcomma ?_)
  exact (MadeOf.member (by decide) (.mapToJson hidentity)).append (.frame (by decide))

/-! ### The walk over a JSON payload -/

/-- The text of the job is a brace, a run of fields, a bar, and a run of fields up to its end, those
of which that the message has in its own types are well formed. -/
def Misread (j : SubmissionJob) : Prop :=
  (toJson j).length ≤ maxSize ∧ ∃ inner outer skipped fields,
    toJson j = chr '{' :: (inner ++ chr '|' :: outer) ∧ Run (maxDepth - 1) inner skipped ∧
      Run maxDepth outer fields ∧ ∀ f ∈ fields, IsTaken f

/-- The bar with its high bit set is no byte of UTF-8. -/
theorem bar_notMem_toJson {j : SubmissionJob} (h : j.Utf8) : chr '|' + 0x80 ∉ toJson j := by
  intro hmem
  rcases madeOf_toJson j _ hmem with hframe | ⟨s, hs, hc⟩
  · exact absurd hframe (by decide)
  · exact absurd (le_of_isValidUtf8 (h s hs) _ hc) (by decide)

theorem fromProtobuf_toJson_iff {j : SubmissionJob} (h : j.Utf8) :
    fromProtobuf (toJson j) = none ↔ ¬ Misread j := by
  have hbar := bar_notMem_toJson h
  have htag : readTag [chr '{'] = some ((15, 3), []) := by decide
  have hclose : readTag [chr '|'] = some ((15, 4), []) := by decide
  obtain ⟨text, htext⟩ : ∃ text, toJson j = chr '{' :: text := ⟨_, rfl⟩
  rw [← Option.not_isSome_iff_eq_none, not_iff_not, fromProtobuf, isSome_parseFromArray_iff, Misread,
    htext]
  rw [htext] at hbar
  refine and_congr_right fun _ => ⟨?_, ?_⟩
  · rintro ⟨fields, hrun, htaken⟩
    obtain ⟨inner, close, outer, skipped, more, hsplit, hinner, hend, houter, rfl⟩ :=
      (run_group_iff htag).mp hrun
    have hbarClose : chr '|' + 0x80 ∉ close := by
      intro hmem
      rw [hsplit] at hbar
      simp [hmem] at hbar
    obtain rfl := eq_singleton_of_readTag hend (c := chr '|') (by decide) (by decide) hbarClose
    exact ⟨inner, outer, skipped, more, by rw [hsplit]; rfl, hinner, houter,
      fun f hf => htaken f (List.mem_cons_of_mem _ hf)⟩
  · rintro ⟨inner, outer, skipped, fields, hsplit, hinner, houter, htaken⟩
    obtain rfl := (List.cons.inj hsplit).2
    refine ⟨_, (run_group_iff htag).mpr ⟨inner, [chr '|'], outer, skipped, fields, rfl, hinner,
      hclose, houter, rfl⟩, ?_⟩
    exact List.forall_mem_cons.mpr ⟨trivial, htaken⟩

/-- A job without a bar in its strings is not misread. -/
theorem not_misread_of_bar_notMem {j : SubmissionJob} (h : ∀ s ∈ j.strings, chr '|' ∉ s) :
    ¬ Misread j := by
  rintro ⟨-, inner, outer, skipped, fields, hsplit, -⟩
  have hmem : chr '|' ∈ toJson j := by
    rw [hsplit]
    simp
  rcases madeOf_toJson j _ hmem with hframe | ⟨s, hs, hc⟩
  · exact absurd hframe (by decide)
  · exact h s hs hc

/-! ### Dual support -/

/-- Each format is decoded by its own decoder. -/
structure Unambiguous (order : EntryOrder) (j : SubmissionJob) : Prop where
  protobuf : fromProtobuf (toProtobuf order j) = some j
  json : fromProtobuf (toJson j) = none
  dequeue_protobuf : dequeue (some (toProtobuf order j)) = fromProtobuf (toProtobuf order j)
  dequeue_json : dequeue (some (toJson j)) = fromJson (toJson j)

theorem unambiguous_of {order : EntryOrder} {j : SubmissionJob}
    (hprotobuf : fromProtobuf (toProtobuf order j) = some j)
    (hjson : fromProtobuf (toJson j) = none) : Unambiguous order j where
  protobuf := hprotobuf
  json := hjson
  dequeue_protobuf := by rw [dequeue, Option.bind_some, hprotobuf, Option.some_or]
  dequeue_json := by rw [dequeue, Option.bind_some, hjson, Option.none_or]

/-- The formats are told apart for the jobs that the library can write and does not misread. -/
theorem unambiguous_iff (order : EntryOrder) (j : SubmissionJob) (hid : j.jobId ≠ [])
    (hutf8 : j.Utf8) :
    Unambiguous order j ↔ (serialization order j).length ≤ maxSize ∧ ¬ Misread j := by
  rw [← fromProtobuf_toProtobuf_iff hid hutf8, ← fromProtobuf_toJson_iff hutf8]
  exact ⟨fun h => ⟨h.protobuf, h.json⟩, fun h => unambiguous_of h.1 h.2⟩

theorem unambiguous_iff_plain :
    Unambiguous .byKey { jobId := str "a1" } ↔
      (serialization .byKey { jobId := str "a1" }).length ≤ maxSize ∧
        ¬ Misread { jobId := str "a1" } :=
  unambiguous_iff _ _ (by decide) (by decide)

/-- The first length, a `j`, leads into the name of the student, and from the bar there the walk goes
on into the answer and out of the text. -/
def crossedJob : SubmissionJob :=
  { jobId := str "a1"
    examId := 7
    studentName := List.replicate 66 (chr 'x') ++ str "|z~"
    answers := OrderedMap.empty.insert (str "1")
      (List.replicate 10 (chr 'y') ++ str "z0" ++ List.replicate 26 (chr 'y')) }

theorem not_unambiguous : crossedJob.jobId ≠ [] ∧ crossedJob.Utf8 ∧
    dequeue (some (toJson crossedJob)) = some {} ∧
    ¬ ∀ order : EntryOrder, Unambiguous order crossedJob := by
  have hread : fromProtobuf (toJson crossedJob) = some {} := by decide +kernel
  refine ⟨by decide, by decide +kernel, ?_, fun h => ?_⟩
  · rw [dequeue, Option.bind_some, hread, Option.some_or]
  · have hnone := (h .byKey).json
    rw [hread] at hnone
    cases hnone

end ExamVan.Queue
